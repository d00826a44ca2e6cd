import Crpg.Lib.Postcard

/-!
# The byte strings a reader takes

`Codes` ties a reader to one canonical form of each value. `Reads form read` says all of it: the
reader takes exactly the byte strings `form` gives a value, and leaves what follows. The rules
follow the shape of a reader as those of `Codes` do.

The only primitive with several forms is an integer of variable length: `VarintForm`, of which
`VarintForm.eq_or_longer` says that every form but the shortest is longer than it.
-/

set_option autoImplicit false

namespace Crpg.Lib

variable {ε α β : Type}

def Reads (form : α → List UInt8 → Prop) (read : Reader ε α) : Prop :=
  ∀ bytes value rest, read bytes = .ok (value, rest) ↔
    ∃ front, form value front ∧ bytes = front ++ rest

namespace Reads

variable {form : α → List UInt8 → Prop} {read : Reader ε α}

theorem congr (hreads : Reads form read) {other : α → List UInt8 → Prop}
    (hiff : ∀ value bytes, form value bytes ↔ other value bytes) : Reads other read := by
  intro bytes value rest
  rw [hreads bytes value rest]
  apply exists_congr
  intro front
  rw [hiff value front]

theorem pure (value : α) :
    Reads (fun result bytes ↦ result = value ∧ bytes = []) (Pure.pure value : Reader ε α) := by
  intro bytes result rest
  constructor
  · intro hread
    cases hread
    exact ⟨[], ⟨rfl, rfl⟩, rfl⟩
  · rintro ⟨front, ⟨rfl, rfl⟩, rfl⟩
    rfl

theorem throw (fault : ε) : Reads (fun _ _ ↦ False) (MonadExcept.throw fault : Reader ε α) := by
  intro bytes result rest
  constructor
  · intro hread
    exact absurd hread (error_ne_ok fault _)
  · rintro ⟨front, hfalse, -⟩
    exact hfalse.elim

theorem bind (hreads : Reads form read) {next : α → Reader ε β} {later : α → β → List UInt8 → Prop}
    (hnext : ∀ value, (∃ bytes, form value bytes) → Reads (later value) (next value)) :
    Reads (fun result bytes ↦ ∃ value front back, form value front ∧
      later value result back ∧ bytes = front ++ back) (read >>= next) := by
  intro bytes result rest
  rw [reader_bind_eq_ok_iff]
  constructor
  · rintro ⟨value, middle, hfirst, hsecond⟩
    obtain ⟨front, hfront, rfl⟩ := (hreads _ _ _).mp hfirst
    obtain ⟨back, hback, rfl⟩ := (hnext value ⟨front, hfront⟩ _ _ _).mp hsecond
    exact ⟨front ++ back, ⟨value, front, back, hfront, hback, rfl⟩, (List.append_assoc ..).symm⟩
  · rintro ⟨-, ⟨value, front, back, hfront, hback, rfl⟩, rfl⟩
    exact ⟨value, back ++ rest, (hreads _ _ _).mpr ⟨front, hfront, List.append_assoc ..⟩,
      (hnext value ⟨front, hfront⟩ _ _ _).mpr ⟨back, hback, rfl⟩⟩

/-- A check before a reader. -/
theorem guard (hreads : Reads form read) (fault : ε) (refused : Prop) [Decidable refused] :
    Reads (fun value bytes ↦ ¬refused ∧ form value bytes)
      (if refused then MonadExcept.throw fault else read) := by
  split_ifs with hrefused
  · exact (Reads.throw fault).congr fun value bytes ↦
      ⟨False.elim, fun hform ↦ absurd hrefused hform.1⟩
  · exact hreads.congr fun value bytes ↦ (and_iff_right hrefused).symm

theorem okOr (fault : ε) (option : Option α) :
    Reads (fun value bytes ↦ option = some value ∧ bytes = []) (Lib.okOr fault option) := by
  cases option with
  | none =>
    exact (Reads.throw fault).congr fun value bytes ↦
      ⟨False.elim, fun hvalue ↦ absurd hvalue.1.symm (Option.some_ne_none _)⟩
  | some first =>
    refine (Reads.pure first).congr fun value bytes ↦ and_congr_left fun _ ↦ ?_
    rw [Option.some.injEq]
    exact eq_comm

theorem lift (step : Except ε α) :
    Reads (fun value bytes ↦ step = .ok value ∧ bytes = []) (StateT.lift step : Reader ε α) := by
  cases step with
  | error fault =>
    exact (Reads.throw fault).congr fun value bytes ↦
      ⟨False.elim, fun hvalue ↦ absurd hvalue.1 (error_ne_ok fault _)⟩
  | ok first =>
    refine (Reads.pure first).congr fun value bytes ↦ and_congr_left fun _ ↦ ?_
    rw [Except.ok.injEq]
    exact eq_comm

/-- A reader has canonical bytes. Assumes: they are forms, and every form has canonical bytes no
longer than it. -/
theorem codes (hreads : Reads form read) {canonical : α → List UInt8 → Prop}
    (hform : ∀ {value bytes}, canonical value bytes → form value bytes)
    (hshort : ∀ {value bytes}, form value bytes →
      ∃ shortest, canonical value shortest ∧ shortest.length ≤ bytes.length) :
    Codes canonical read where
  reads := fun hcanonical rest ↦ (hreads _ _ _).mpr ⟨_, hform hcanonical, rfl⟩
  sound := by
    intro bytes value rest hread
    obtain ⟨front, hfront, hbytes⟩ := (hreads _ _ _).mp hread
    obtain ⟨shortest, hcanonical, hlength⟩ := hshort hfront
    exact ⟨front, shortest, hbytes, hcanonical, hlength⟩

theorem readAll_iff (hreads : Reads form read) {fault : ε} {value : α} {bytes : List UInt8} :
    readAll read fault bytes = .ok value ↔ form value bytes := by
  rw [readAll_eq_ok_iff, hreads bytes value []]
  constructor
  · rintro ⟨front, hfront, rfl⟩
    rw [List.append_nil]
    exact hfront
  · intro hform
    exact ⟨bytes, hform, (List.append_nil bytes).symm⟩

end Reads

/-! ### Primitives -/

theorem reads_byte (fault : ε) :
    Reads (fun value bytes ↦ value < 256 ∧ bytes = [UInt8.ofNat value]) (takeByte fault) := by
  intro bytes value rest
  constructor
  · intro hread
    cases bytes with
    | nil => exact absurd hread (error_ne_ok fault _)
    | cons byte later =>
      cases hread
      exact ⟨[byte], ⟨byte.toNat_lt, by rw [UInt8.ofNat_toNat]⟩, rfl⟩
  · rintro ⟨front, hfront, rfl⟩
    exact (codes_byte fault).reads hfront rest

theorem reads_raw (fault : ε) (count : ℕ) :
    Reads (fun value bytes ↦ value.length = count ∧ bytes = value) (takeRaw fault count) := by
  intro bytes value rest
  constructor
  · intro hread
    unfold takeRaw at hread
    split_ifs at hread with hshort
    cases hread
    exact ⟨bytes.take count, ⟨List.length_take_of_le (not_lt.mp hshort), rfl⟩,
      (List.take_append_drop count bytes).symm⟩
  · rintro ⟨front, hfront, rfl⟩
    exact (codes_raw fault count).reads hfront rest

theorem reads_array (fault : ε) (count : ℕ) :
    Reads (fun value bytes ↦ bytes = value.toList) (takeArray fault count) := by
  intro bytes value rest
  constructor
  · intro hread
    unfold takeArray at hread
    split_ifs at hread with hlength
    cases hread
    exact ⟨bytes.take count, by simp, (List.take_append_drop count bytes).symm⟩
  · rintro ⟨front, hfront, rfl⟩
    exact (codes_array fault count).reads hfront rest

/-! ### Integers of variable length -/

/-- A byte string reads whole as an integer of a width. -/
def VarintForm (width value : ℕ) (bytes : List UInt8) : Prop :=
  takeVarintFrom (2 ^ (width % 7) - 1) (varintMax width) bytes = some (value, [])

/-- What follows an integer is left. -/
theorem takeVarintFrom_append {last fuel value : ℕ} {front : List UInt8}
    (hread : takeVarintFrom last fuel front = some (value, [])) (rest : List UInt8) :
    takeVarintFrom last fuel (front ++ rest) = some (value, rest) := by
  induction fuel generalizing value front with
  | zero => exact absurd hread.symm (Option.some_ne_none _)
  | succ fuel ih =>
    cases front with
    | nil => exact absurd hread.symm (Option.some_ne_none _)
    | cons byte later =>
      rw [List.cons_append]
      unfold takeVarintFrom at hread ⊢
      split_ifs at hread ⊢ with hsmall hbound
      · cases hread
        rfl
      · obtain ⟨⟨high, middle⟩, hhigh, heq⟩ := Option.map_eq_some_iff.mp hread
        rw [Prod.mk.injEq] at heq
        obtain ⟨rfl, rfl⟩ := heq
        rw [ih hhigh, Option.map_some]

/-- An integer is read off a front, which is its shortest form or longer than that. -/
theorem takeVarintFrom_front {last fuel value : ℕ} {bytes rest : List UInt8}
    (hread : takeVarintFrom last fuel bytes = some (value, rest)) :
    ∃ front, bytes = front ++ rest ∧ takeVarintFrom last fuel front = some (value, []) ∧
      (front = putVarint fuel value ∨ (putVarint fuel value).length < front.length) := by
  induction fuel generalizing value bytes with
  | zero => exact absurd hread.symm (Option.some_ne_none _)
  | succ fuel ih =>
    cases bytes with
    | nil => exact absurd hread.symm (Option.some_ne_none _)
    | cons byte later =>
      unfold takeVarintFrom at hread
      split_ifs at hread with hsmall hbound
      · cases hread
        refine ⟨[byte], rfl, ?_, .inl ?_⟩
        · rw [takeVarintFrom, if_pos hsmall, if_neg hbound]
        · rw [putVarint, if_pos hsmall, UInt8.ofNat_toNat]
      · obtain ⟨⟨high, middle⟩, hhigh, heq⟩ := Option.map_eq_some_iff.mp hread
        rw [Prod.mk.injEq] at heq
        obtain ⟨rfl, rfl⟩ := heq
        obtain ⟨front, rfl, hfront, hform⟩ := ih hhigh
        refine ⟨byte :: front, rfl, ?_, ?_⟩
        · rw [takeVarintFrom, if_neg hsmall, hfront, Option.map_some]
        · have hbyte := byte.toNat_lt
          have hshift : (byte.toNat % 128 + 128 * high) / 128 = high := by omega
          have hlow : (byte.toNat % 128 + 128 * high) % 128 + 128 = byte.toNat := by omega
          have hpos : 0 < front.length := by
            cases front with
            | nil => cases fuel <;> exact absurd hfront.symm (Option.some_ne_none _)
            | cons first others => exact Nat.succ_pos _
          unfold putVarint
          split_ifs with hvalue
          · right
            rw [List.length_singleton, List.length_cons]
            omega
          · rw [hshift, hlow, UInt8.ofNat_toNat, List.length_cons, List.length_cons,
              Nat.add_lt_add_iff_right]
            exact hform.imp_left (congrArg (byte :: ·))

theorem length_le_of_takeVarintFrom {last fuel value : ℕ} {bytes : List UInt8}
    (hread : takeVarintFrom last fuel bytes = some (value, [])) : bytes.length ≤ fuel := by
  induction fuel generalizing value bytes with
  | zero => exact absurd hread.symm (Option.some_ne_none _)
  | succ fuel ih =>
    cases bytes with
    | nil => exact Nat.zero_le _
    | cons byte later =>
      unfold takeVarintFrom at hread
      split_ifs at hread with hsmall hbound
      · cases hread
        exact Nat.succ_le_succ (Nat.zero_le fuel)
      · obtain ⟨⟨high, middle⟩, hhigh, heq⟩ := Option.map_eq_some_iff.mp hread
        rw [Prod.mk.injEq] at heq
        obtain ⟨-, rfl⟩ := heq
        exact Nat.succ_le_succ (ih hhigh)

theorem reads_varint (fault : ε) (width : ℕ) :
    Reads (VarintForm width) (takeVarint fault width) := by
  intro bytes value rest
  unfold takeVarint
  constructor
  · intro hread
    split at hread
    · exact absurd hread (error_ne_ok fault _)
    · next result hresult =>
      cases hread
      obtain ⟨front, hbytes, hfront, -⟩ := takeVarintFrom_front hresult
      exact ⟨front, hfront, hbytes⟩
  · rintro ⟨front, hfront, rfl⟩
    rw [takeVarintFrom_append hfront rest]

namespace VarintForm

variable {width value : ℕ} {bytes : List UInt8}

theorem eq_or_longer (hform : VarintForm width value bytes) :
    bytes = putInt width value ∨ (putInt width value).length < bytes.length := by
  obtain ⟨front, hbytes, -, hfront⟩ := takeVarintFrom_front hform
  rw [List.append_nil] at hbytes
  rw [putInt, hbytes]
  exact hfront

theorem length_le (hform : VarintForm width value bytes) :
    (putInt width value).length ≤ bytes.length := by
  rcases hform.eq_or_longer with rfl | hlonger
  · exact le_rfl
  · exact hlonger.le

theorem lt (hform : VarintForm width value bytes) : value < 2 ^ width := by
  have hread : takeVarint () width bytes = .ok (value, []) :=
    (reads_varint () width bytes value []).mpr ⟨bytes, hform, (List.append_nil bytes).symm⟩
  obtain ⟨-, -, -, ⟨hvalue, -⟩, -⟩ := (codes_varint () width).sound hread
  exact hvalue

theorem putInt (hvalue : value < 2 ^ width) : VarintForm width value (Lib.putInt width value) := by
  have hread := (codes_varint () width).reads ⟨hvalue, rfl⟩ []
  rw [List.append_nil] at hread
  obtain ⟨front, hfront, hbytes⟩ := (reads_varint () width _ _ _).mp hread
  rw [List.append_nil] at hbytes
  rwa [hbytes]

theorem length_le_max (hform : VarintForm width value bytes) :
    bytes.length ≤ varintMax width := length_le_of_takeVarintFrom hform

end VarintForm

/-! ### Lists -/

namespace CanonicalList

variable {first second : α → List UInt8 → Prop} {values : List α} {bytes : List UInt8}

theorem imp (hvalues : CanonicalList first values bytes)
    (himp : ∀ value ∈ values, ∀ bytes, first value bytes → second value bytes) :
    CanonicalList second values bytes := by
  induction hvalues with
  | nil => exact .nil
  | cons hvalue hrest ih =>
    rw [List.forall_mem_cons] at himp
    exact .cons (himp.1 _ hvalue) (ih himp.2)

theorem shorten (hvalues : CanonicalList first values bytes)
    (hshort : ∀ value bytes, first value bytes →
      ∃ shortest, second value shortest ∧ shortest.length ≤ bytes.length) :
    ∃ shortest, CanonicalList second values shortest ∧ shortest.length ≤ bytes.length := by
  induction hvalues with
  | nil => exact ⟨[], .nil, le_rfl⟩
  | cons hvalue hrest ih =>
    obtain ⟨front, hfront, hlengthFront⟩ := hshort _ _ hvalue
    obtain ⟨back, hback, hlengthBack⟩ := ih
    refine ⟨front ++ back, .cons hfront hback, ?_⟩
    rw [List.length_append, List.length_append]
    exact Nat.add_le_add hlengthFront hlengthBack

theorem length_le {bound : ℕ} (hvalues : CanonicalList first values bytes)
    (hbound : ∀ value bytes, first value bytes → bytes.length ≤ bound) :
    bytes.length ≤ values.length * bound := by
  induction hvalues with
  | nil => exact Nat.zero_le _
  | cons hvalue hrest ih =>
    have hfront := hbound _ _ hvalue
    rw [List.length_append, List.length_cons, Nat.succ_mul]
    omega

end CanonicalList

/-- Values that are written one after another. -/
theorem canonicalList_put_iff {put : α → List UInt8} {values : List α} {bytes : List UInt8} :
    CanonicalList (fun value bytes ↦ bytes = put value) values bytes ↔
      bytes = values.flatMap put := by
  induction values generalizing bytes with
  | nil =>
    constructor
    · intro hvalues
      cases hvalues with
      | nil => rfl
    · rintro rfl
      exact .nil
  | cons value rest ih =>
    rw [canonicalList_cons_iff, List.flatMap_cons]
    constructor
    · rintro ⟨front, back, rfl, hrest, rfl⟩
      rw [ih.mp hrest]
    · rintro rfl
      exact ⟨put value, rest.flatMap put, rfl, ih.mpr rfl, rfl⟩

end Crpg.Lib
