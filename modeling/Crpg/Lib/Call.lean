import Crpg.Lib.Result

/-!
# Calls on a state

A method that mutates its object returns a value or an error, and the object it leaves behind is
there in both cases: a `?` after a mutation keeps the mutation. `Call σ ε α` is such a method. A
call that does not return has a fault, and an unsigned subtraction that goes below zero is a fault
of its own, apart from every other panic.
-/

set_option autoImplicit false

namespace Crpg.Lib

/-- Why a call does not return. -/
inductive Fault
  | underflow
  | panic
deriving DecidableEq

/-- What a call does: it returns a value or an error and leaves a state, or it does not return. -/
inductive Outcome (σ ε α : Type)
  | ok (value : α) (state : σ)
  | err (error : ε) (state : σ)
  | fault (why : Fault)

namespace Outcome

variable {σ τ ε α β : Type}

/-- Runs the rest of a call on the value and the state of its first step. -/
def bind : Outcome σ ε α → (α → σ → Outcome σ ε β) → Outcome σ ε β
  | ok value state, next => next value state
  | err error state, _ => err error state
  | fault why, _ => fault why

@[simp]
theorem ok_bind (value : α) (state : σ) (next : α → σ → Outcome σ ε β) :
    (ok value state).bind next = next value state :=
  rfl

@[simp]
theorem err_bind (error : ε) (state : σ) (next : α → σ → Outcome σ ε β) :
    (err error state).bind next = err error state :=
  rfl

@[simp]
theorem fault_bind (why : Fault) (next : α → σ → Outcome σ ε β) :
    (fault why : Outcome σ ε α).bind next = fault why :=
  rfl

/-- The state a call left, if it returned. -/
def state? : Outcome σ ε α → Option σ
  | ok _ state => some state
  | err _ state => some state
  | fault _ => none

end Outcome

/-- A method on a state of type `σ`. -/
def Call (σ ε α : Type) := σ → Outcome σ ε α

namespace Call

variable {σ τ ε δ α β ι : Type}

instance : Monad (Call σ ε) where
  pure value := fun state ↦ .ok value state
  bind call next := fun state ↦ (call state).bind next

/-- The state. -/
def get : Call σ ε σ := fun state ↦ .ok state state

/-- Replaces the state. -/
def set (next : σ) : Call σ ε Unit := fun _ ↦ .ok () next

/-- Rewrites the state. -/
def modify (transform : σ → σ) : Call σ ε Unit := fun state ↦ .ok () (transform state)

def fail (error : ε) : Call σ ε α := fun state ↦ .err error state

/-- Does not return. -/
def stop (why : Fault) : Call σ ε α := fun _ ↦ .fault why

/-- Returns an error when a test holds: the guard of an early return. -/
def failIf (test : Prop) [Decidable test] (error : ε) : Call σ ε Unit :=
  if test then fail error else pure ()

/-- The `?` operator on a call that reads the state only. -/
def ofResult : Result ε α → Call σ ε α
  | .ok value => pure value
  | .err error => fail error
  | .panic => stop .panic

/-- The `?` operator on a result that cannot panic. -/
def ofExcept : Except ε α → Call σ ε α
  | .ok value => pure value
  | .error error => fail error

/-- `expect` on an option. -/
def expect : Option α → Call σ ε α
  | some value => pure value
  | none => stop .panic

def okOr (error : ε) : Option α → Call σ ε α
  | some value => pure value
  | none => fail error

/-- An unsigned subtraction. -/
def sub (left right : ℕ) : Call σ ε ℕ :=
  if right ≤ left then pure (left - right) else stop .underflow

/-- Runs a call for each item in order, stopping at the first that does not return a value. -/
def forM (step : ι → Call σ ε Unit) : List ι → Call σ ε Unit
  | [] => pure ()
  | item :: rest => do
    step item
    forM step rest

/-- Runs a call on a part of the state and writes the part back, whatever the call returned. A part
that is not there is a failed `expect`. -/
def focus (part : σ → Option τ) (put : σ → τ → σ) (call : Call τ ε α) : Call σ ε α := fun state ↦
  match part state with
  | none => .fault .panic
  | some inner =>
    match call inner with
    | .ok value next => .ok value (put state next)
    | .err error next => .err error (put state next)
    | .fault why => .fault why

/-! ### Evaluation -/

@[simp]
theorem bind_apply (call : Call σ ε α) (next : α → Call σ ε β) (state : σ) :
    (call >>= next) state = (call state).bind fun value left ↦ (next value) left :=
  rfl

@[simp]
theorem pure_apply (value : α) (state : σ) : (pure value : Call σ ε α) state = .ok value state :=
  rfl

@[simp]
theorem get_apply (state : σ) : (get : Call σ ε σ) state = .ok state state := rfl

@[simp]
theorem set_apply (next state : σ) : (set next : Call σ ε Unit) state = .ok () next := rfl

@[simp]
theorem modify_apply (transform : σ → σ) (state : σ) :
    (modify transform : Call σ ε Unit) state = .ok () (transform state) :=
  rfl

@[simp]
theorem fail_apply (error : ε) (state : σ) : (fail error : Call σ ε α) state = .err error state :=
  rfl

theorem failIf_of {test : Prop} [Decidable test] (htest : test) (error : ε) (state : σ) :
    (failIf test error : Call σ ε Unit) state = .err error state := by
  rw [failIf, if_pos htest, fail_apply]

theorem failIf_of_not {test : Prop} [Decidable test] (htest : ¬test) (error : ε) (state : σ) :
    (failIf test error : Call σ ε Unit) state = .ok () state := by
  rw [failIf, if_neg htest, pure_apply]

theorem sub_of_le {left right : ℕ} (hle : right ≤ left) (state : σ) :
    (sub left right : Call σ ε ℕ) state = .ok (left - right) state := by
  rw [sub, if_pos hle, pure_apply]

@[simp]
theorem ofExcept_ok (value : α) (state : σ) :
    (ofExcept (.ok value) : Call σ ε α) state = .ok value state :=
  rfl

@[simp]
theorem ofExcept_error (error : ε) (state : σ) :
    (ofExcept (.error error) : Call σ ε α) state = .err error state :=
  rfl

@[simp]
theorem expect_some (value : α) (state : σ) :
    (expect (some value) : Call σ ε α) state = .ok value state :=
  rfl

end Call

end Crpg.Lib
