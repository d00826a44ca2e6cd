import Mathlib.Data.List.Basic

/-!
# Results of calls that can fail or panic

A call returns a value, returns an error, or does not return: an assertion fails, an unwrapped
option is empty, a loop has no end. `Result ε α` keeps the three apart, so that a proof can say of
a function that it returns, whatever it returns. The bind lemmas cut a computation into its steps:
a sequence that returns has a first step that returns, and a sequence panics where its first
panicking step does.
-/

set_option autoImplicit false

namespace Crpg.Lib

/-- What a call does: it returns a value, it returns an error, or it does not return. -/
inductive Result (ε α : Type*)
  | ok (value : α)
  | err (error : ε)
  | panic
deriving DecidableEq

namespace Result

universe u

variable {ε δ α β : Type*}

/-- Runs one step and then the rest on its value. -/
def bind : Result ε α → (α → Result ε β) → Result ε β
  | ok value, next => next value
  | err error, _ => err error
  | panic, _ => panic

instance : Monad (Result ε) where
  pure := ok
  bind := bind

/-- `expect` on an option. -/
def expect : Option α → Result ε α
  | some value => ok value
  | none => panic

/-- `expect` on a result. -/
def expectOk : Except δ α → Result ε α
  | .ok value => ok value
  | .error _ => panic

/-- The `?` operator on a result. -/
def ofExcept : Except ε α → Result ε α
  | .ok value => ok value
  | .error error => err error

def mapErr (convert : δ → ε) : Result δ α → Result ε α
  | ok value => ok value
  | err error => err (convert error)
  | panic => panic

/-- `expect` on the result of a call that can itself panic. -/
def unwrap : Result δ α → Result ε α
  | ok value => ok value
  | err _ => panic
  | panic => panic

def okOr (error : ε) : Option α → Result ε α
  | some value => ok value
  | none => err error

/-- Returns the error when the test holds: the guard of an early return. -/
def failIf (test : Prop) [Decidable test] (error : ε) : Result ε Unit :=
  if test then err error else ok ()

def panicIf (test : Prop) [Decidable test] : Result ε Unit :=
  if test then panic else ok ()

/-- Runs a step over a list from the left, stopping at the first step that does not return. -/
def foldlM (step : β → α → Result ε β) : β → List α → Result ε β
  | state, [] => ok state
  | state, item :: rest => (step state item).bind fun next ↦ foldlM step next rest

def mapM (step : α → Result ε β) : List α → Result ε (List β)
  | [] => ok []
  | item :: rest => (step item).bind fun value ↦ (mapM step rest).bind fun values ↦
    ok (value :: values)

/-- Runs a check over a list in order. -/
def forM (check : α → Result ε Unit) : List α → Result ε Unit
  | [] => ok ()
  | item :: rest => (check item).bind fun _ ↦ forM check rest

/-- `is_ok_and`: the call returns a value that passes a test. -/
def isOkAnd (test : α → Bool) : Result ε α → Bool
  | ok value => test value
  | _ => false

/-- The call returns, with a value or with an error. -/
def Returns (result : Result ε α) : Prop := result ≠ panic

/-! ### Bind -/

@[simp]
theorem bind_eq {σ τ : Type u} (result : Result ε σ) (next : σ → Result ε τ) :
    result >>= next = result.bind next :=
  rfl

@[simp]
theorem pure_eq (value : α) : (pure value : Result ε α) = ok value := rfl

@[simp]
theorem ok_bind (value : α) (next : α → Result ε β) : (ok value).bind next = next value := rfl

@[simp]
theorem err_bind (error : ε) (next : α → Result ε β) : (err error).bind next = err error := rfl

@[simp]
theorem panic_bind (next : α → Result ε β) : (panic : Result ε α).bind next = panic := rfl

variable {result : Result ε α} {next : α → Result ε β} {test : Prop} {error : ε} {option : Option α}
  {value : α} {check : α → Result ε Unit} {items : List α}

@[simp]
theorem bind_eq_ok_iff {value : β} :
    result.bind next = ok value ↔ ∃ middle, result = ok middle ∧ next middle = ok value := by
  cases result <;> simp

/-- A sequence of a `do` block that returns has a first step that returns. -/
theorem bind_ok_iff {σ τ : Type u} {result : Result ε σ} {next : σ → Result ε τ} {value : τ} :
    result >>= next = ok value ↔ ∃ middle, result = ok middle ∧ next middle = ok value :=
  bind_eq_ok_iff

theorem pure_ok_iff {last : α} : (pure value : Result ε α) = ok last ↔ value = last := by
  simp

theorem bind_eq_panic_iff : result.bind next = panic ↔
      result = panic ∨ ∃ middle, result = ok middle ∧ next middle = panic := by
  cases result <;> simp

theorem bind_assoc {γ : Type*} (result : Result ε α) (next : α → Result ε β)
    (last : β → Result ε γ) :
    (result.bind next).bind last = result.bind fun value ↦ (next value).bind last := by
  cases result <;> rfl

/-- A sequence of two fallible steps succeeds when both do. -/
theorem except_bind_eq_ok {σ τ : Type u} {first : Except ε σ} {next : σ → Except ε τ} {value : τ}
    (hbind : (first >>= next) = .ok value) :
    ∃ middle, first = .ok middle ∧ next middle = .ok value := by
  cases first with
  | error error => cases hbind
  | ok middle => exact ⟨middle, rfl, hbind⟩

/-! ### Guards and unwrapping -/

@[simp]
theorem failIf_eq_ok_iff [Decidable test] {value : Unit} :
    failIf test error = ok value ↔ ¬test := by
  by_cases htest : test <;> simp [failIf, htest]

@[simp]
theorem panicIf_eq_ok_iff [Decidable test] {value : Unit} :
    (panicIf test : Result ε Unit) = ok value ↔ ¬test := by
  by_cases htest : test <;> simp [panicIf, htest]

@[simp]
theorem expect_eq_ok_iff : (expect option : Result ε α) = ok value ↔ option = some value := by
  cases option <;> simp [expect]

@[simp]
theorem expect_some (value : α) : (expect (some value) : Result ε α) = ok value := rfl

@[simp]
theorem okOr_eq_ok_iff : okOr error option = ok value ↔ option = some value := by
  cases option <;> simp [okOr]

@[simp]
theorem unwrap_eq_ok_iff {result : Result δ α} :
    (unwrap result : Result ε α) = ok value ↔ result = ok value := by
  cases result <;> simp [unwrap]

@[simp]
theorem mapErr_eq_ok_iff {convert : δ → ε} {result : Result δ α} :
    mapErr convert result = ok value ↔ result = ok value := by
  cases result <;> simp [mapErr]

theorem isOkAnd_iff {test : α → Bool} :
    isOkAnd test result = true ↔ ∃ value, result = ok value ∧ test value = true := by
  cases result <;> simp [isOkAnd]

theorem forM_eq_ok_iff : forM check items = ok () ↔ ∀ item ∈ items, check item = ok () := by
  induction items with
  | nil => simp [forM]
  | cons item rest ih =>
    simp only [forM, bind_eq_ok_iff, List.mem_cons, forall_eq_or_imp, ih]
    exact ⟨fun ⟨_, hitem, hrest⟩ ↦ ⟨hitem, hrest⟩, fun ⟨hitem, hrest⟩ ↦ ⟨(), hitem, hrest⟩⟩

theorem mapM_eq_ok_iff {step : α → Result ε β} {values : List β} : mapM step items = ok values ↔
      List.Forall₂ (fun item value ↦ step item = ok value) items values := by
  induction items generalizing values with
  | nil =>
    constructor
    · intro hmap
      cases hmap
      exact .nil
    · intro hall
      cases hall
      rfl
  | cons item rest ih =>
    simp only [mapM, bind_eq_ok_iff, ih]
    constructor
    · rintro ⟨value, hvalue, others, hothers, heq⟩
      cases heq
      exact .cons hvalue hothers
    · intro hall
      cases hall with
      | cons hvalue hothers => exact ⟨_, hvalue, _, hothers, rfl⟩

/-- The invariant rule of a fold. Assumes: a property that every returning step preserves. -/
theorem foldlM_preserves {step : β → α → Result ε β} {motive : β → Prop}
    (hstep : ∀ item ∈ items, ∀ state next, motive state → step state item = ok next → motive next)
    {state final : β} (hstart : motive state) (hfold : foldlM step state items = ok final) :
    motive final := by
  induction items generalizing state with
  | nil =>
    cases hfold
    exact hstart
  | cons item rest ih =>
    obtain ⟨next, hnext, hrest⟩ := bind_eq_ok_iff.mp hfold
    refine ih (fun other hother ↦ hstep other (List.mem_cons_of_mem _ hother)) ?_ hrest
    exact hstep item (List.mem_cons_self ..) state next hstart hnext

/-! ### Calls that do not panic -/

theorem returns_ok (value : α) : Returns (ok value : Result ε α) := nofun

theorem returns_err (error : ε) : Returns (err error : Result ε α) := nofun

theorem returns_failIf [Decidable test] : Returns (failIf test error) := by
  unfold failIf
  split_ifs <;> nofun

theorem returns_okOr : Returns (okOr error option) := by
  cases option <;> nofun

theorem Returns.bind (hresult : result.Returns)
    (hnext : ∀ value, result = ok value → (next value).Returns) : (result.bind next).Returns := by
  intro hpanic
  obtain hfirst | ⟨value, hvalue, hrest⟩ := bind_eq_panic_iff.mp hpanic
  · exact hresult hfirst
  · exact hnext value hvalue hrest

theorem Returns.mapErr {convert : δ → ε} {result : Result δ α} (hresult : result.Returns) :
    (result.mapErr convert).Returns := by
  cases result with
  | ok value => nofun
  | err error => nofun
  | panic => exact absurd rfl hresult

theorem returns_forM (hcheck : ∀ item, (check item).Returns) : (forM check items).Returns := by
  induction items with
  | nil => nofun
  | cons item rest ih => exact (hcheck item).bind fun _ _ ↦ ih

theorem returns_forM_of_mem (hcheck : ∀ item ∈ items, (check item).Returns) :
    (forM check items).Returns := by
  induction items with
  | nil => nofun
  | cons item rest ih =>
    exact (hcheck item (List.mem_cons_self ..)).bind fun _ _ ↦
      ih fun other hother ↦ hcheck other (List.mem_cons_of_mem _ hother)

theorem returns_expect_some (hsome : option = some value) :
    (expect option : Result ε α).Returns := by
  rw [hsome]
  nofun

theorem returns_foldlM {step : β → α → Result ε β} {state : β}
    (hstep : ∀ state item, (step state item).Returns) : (foldlM step state items).Returns := by
  induction items generalizing state with
  | nil => nofun
  | cons item rest ih => exact (hstep state item).bind fun _ _ ↦ ih

/-- Two continuations that agree on the value a result returns agree after it. -/
theorem bind_congr {first second : α → Result ε β}
    (hcongr : ∀ value, result = ok value → first value = second value) :
    result.bind first = result.bind second := by
  cases result with
  | ok value => exact hcongr value rfl
  | err error => rfl
  | panic => rfl

end Result

end Crpg.Lib
