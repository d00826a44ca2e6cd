import Mathlib.Data.List.Basic
import Mathlib.Data.Nat.Basic
import Mathlib.Tactic.Common
import Mathlib.Tactic.Ring

/-!
# Byte readers and their canonical forms

A reader takes a value off the front of a byte string or fails. `Codes canonical read` ties a reader
to the relation between a value and its canonical bytes: the reader reads the canonical bytes of a
value back and leaves what follows them, and whatever it reads has canonical bytes no longer than
the bytes it used. A reader may accept other bytes for a value, as one of variable-length integers
does. The rules `Codes.pure`, `Codes.bind`, `Codes.guard` and `Codes.many` follow the shape of a
reader written in `do` notation, so the canonical form of a record is read off its reader.
-/

set_option autoImplicit false

namespace Crpg.Lib

/-- A reader of byte strings that fails with an `ε`. -/
abbrev Reader (ε : Type) := StateT (List UInt8) (Except ε)

variable {ε α β : Type}

theorem error_ne_ok (fault : ε) (value : α) : (Except.error fault : Except ε α) ≠ .ok value :=
  nofun

/-- A step and then another return when the first returns and the second does on its value. -/
theorem except_bind_eq_ok_iff {first : Except ε α} {next : α → Except ε β} {result : β} :
    (first >>= next) = .ok result ↔ ∃ value, first = .ok value ∧ next value = .ok result := by
  cases first with
  | error fault =>
    exact ⟨fun hbind ↦ absurd hbind (error_ne_ok fault _),
      fun ⟨_, hfirst, _⟩ ↦ absurd hfirst (error_ne_ok fault _)⟩
  | ok value =>
    exact ⟨fun hbind ↦ ⟨value, rfl, hbind⟩, fun ⟨_, hfirst, hnext⟩ ↦ by cases hfirst; exact hnext⟩

/-- A step and then another do not fail in a way that neither does. -/
theorem except_bind_ne_error {first : Except ε α} {next : α → Except ε β} {fault : ε}
    (hfirst : first ≠ .error fault)
    (hnext : ∀ value, first = .ok value → next value ≠ .error fault) :
    (first >>= next) ≠ .error fault := by
  cases first with
  | error other => exact fun hbind ↦ hfirst (by cases hbind; rfl)
  | ok value => exact hnext value rfl

variable {read : Reader ε α}

theorem reader_bind {next : α → Reader ε β} {value : α} {bytes rest : List UInt8}
    (hread : read bytes = .ok (value, rest)) : (read >>= next) bytes = next value rest := by
  show (read bytes >>= fun state ↦ next state.1 state.2) = _
  rw [hread]
  rfl

/-- One reader after another returns when the first returns and the second does on the rest. -/
theorem reader_bind_eq_ok_iff {next : α → Reader ε β} {bytes : List UInt8}
    {result : β × List UInt8} : (read >>= next) bytes = .ok result ↔
      ∃ value rest, read bytes = .ok (value, rest) ∧ next value rest = .ok result := by
  show (read bytes >>= fun state ↦ next state.1 state.2) = _ ↔ _
  rw [except_bind_eq_ok_iff]
  exact Prod.exists

structure Codes (canonical : α → List UInt8 → Prop) (read : Reader ε α) : Prop where
  reads : ∀ {value bytes}, canonical value bytes → ∀ rest,
    read (bytes ++ rest) = .ok (value, rest)
  sound : ∀ {bytes value rest}, read bytes = .ok (value, rest) →
    ∃ front shortest, bytes = front ++ rest ∧ canonical value shortest ∧
      shortest.length ≤ front.length

namespace Codes

variable {canonical : α → List UInt8 → Prop} {read : Reader ε α}

/-- The canonical form may be restated. -/
theorem congr (hcodes : Codes canonical read) {other : α → List UInt8 → Prop}
    (hiff : ∀ value bytes, canonical value bytes ↔ other value bytes) : Codes other read where
  reads := fun hother rest ↦ hcodes.reads ((hiff _ _).mpr hother) rest
  sound := by
    intro bytes value rest hread
    obtain ⟨front, shortest, hbytes, hcanonical, hshort⟩ := hcodes.sound hread
    exact ⟨front, shortest, hbytes, (hiff _ _).mp hcanonical, hshort⟩

theorem pure (value : α) :
    Codes (fun result bytes ↦ result = value ∧ bytes = []) (Pure.pure value : Reader ε α) where
  reads := by
    rintro result bytes ⟨rfl, rfl⟩ rest
    rfl
  sound := by
    intro bytes result rest hread
    cases hread
    exact ⟨[], [], rfl, ⟨rfl, rfl⟩, le_rfl⟩

theorem throw (fault : ε) : Codes (fun _ _ ↦ False) (MonadExcept.throw fault : Reader ε α) where
  reads := fun hfalse ↦ hfalse.elim
  sound := by
    intro bytes result rest hread
    exact absurd hread (error_ne_ok fault _)

theorem bind (hcodes : Codes canonical read) {next : α → Reader ε β}
    {later : α → β → List UInt8 → Prop}
    (hnext : ∀ value, (∃ bytes, canonical value bytes) → Codes (later value) (next value)) :
    Codes (fun result bytes ↦ ∃ value front back, canonical value front ∧
      later value result back ∧ bytes = front ++ back) (read >>= next) where
  reads := by
    rintro result bytes ⟨value, front, back, hfront, hback, rfl⟩ rest
    rw [List.append_assoc, reader_bind (hcodes.reads hfront (back ++ rest))]
    exact (hnext value ⟨front, hfront⟩).reads hback rest
  sound := by
    intro bytes result rest hread
    obtain ⟨value, middle, hfirst, hsecond⟩ := reader_bind_eq_ok_iff.mp hread
    obtain ⟨front, short, hbytes, hvalue, hlength⟩ := hcodes.sound hfirst
    obtain ⟨back, later, hmiddle, hresult, hbound⟩ := (hnext value ⟨short, hvalue⟩).sound hsecond
    refine ⟨front ++ back, short ++ later, ?_, ⟨value, short, later, hvalue, hresult, rfl⟩, ?_⟩
    · rw [hbytes, hmiddle, List.append_assoc]
    · rw [List.length_append, List.length_append]
      exact Nat.add_le_add hlength hbound

/-- A check before a reader. -/
theorem guard (hcodes : Codes canonical read) (fault : ε) (refused : Prop) [Decidable refused] :
    Codes (fun value bytes ↦ ¬refused ∧ canonical value bytes)
      (if refused then MonadExcept.throw fault else read) where
  reads := by
    rintro value bytes ⟨hkept, hcanonical⟩ rest
    rw [if_neg hkept]
    exact hcodes.reads hcanonical rest
  sound := by
    intro bytes value rest hread
    split_ifs at hread with hrefused
    · exact absurd hread (error_ne_ok fault _)
    · obtain ⟨front, shortest, hbytes, hcanonical, hshort⟩ := hcodes.sound hread
      exact ⟨front, shortest, hbytes, ⟨hrefused, hcanonical⟩, hshort⟩

end Codes

def okOr (fault : ε) : Option α → Reader ε α
  | none => throw fault
  | some value => pure value

theorem Codes.okOr (fault : ε) (option : Option α) :
    Codes (fun value bytes ↦ option = some value ∧ bytes = []) (Lib.okOr fault option) := by
  cases option with
  | none =>
    exact (Codes.throw fault).congr fun value bytes ↦
      ⟨False.elim, fun hvalue ↦ absurd hvalue.1.symm (Option.some_ne_none _)⟩
  | some first =>
    refine (Codes.pure first).congr fun value bytes ↦ and_congr_left fun _ ↦ ?_
    rw [Option.some.injEq]
    exact eq_comm

/-! ### Repetition -/

def readMany (read : Reader ε α) : ℕ → Reader ε (List α)
  | 0 => pure []
  | count + 1 => do
    let value ← read
    let values ← readMany read count
    pure (value :: values)

inductive CanonicalList (canonical : α → List UInt8 → Prop) : List α → List UInt8 → Prop
  | nil : CanonicalList canonical [] []
  | cons {value : α} {values : List α} {front back : List UInt8} (hvalue : canonical value front)
      (hvalues : CanonicalList canonical values back) :
      CanonicalList canonical (value :: values) (front ++ back)

theorem Codes.many {canonical : α → List UInt8 → Prop} (hcodes : Codes canonical read) (count : ℕ) :
    Codes (fun values bytes ↦ values.length = count ∧ CanonicalList canonical values bytes)
      (readMany read count) := by
  induction count with
  | zero =>
    refine (Codes.pure []).congr fun values bytes ↦ ⟨?_, ?_⟩
    · rintro ⟨rfl, rfl⟩
      exact ⟨rfl, .nil⟩
    · rintro ⟨hlength, hvalues⟩
      cases hvalues with
      | nil => exact ⟨rfl, rfl⟩
      | cons hvalue hvalues => exact absurd hlength (Nat.succ_ne_zero _)
  | succ count ih =>
    refine (hcodes.bind fun value _ ↦ ih.bind fun values _ ↦ Codes.pure _).congr
      fun values bytes ↦ ⟨?_, ?_⟩
    · rintro ⟨value, front, back, hvalue, ⟨later, middle, rest, ⟨hlength, hlater⟩,
        ⟨rfl, rfl⟩, rfl⟩, rfl⟩
      rw [List.append_nil]
      exact ⟨congrArg Nat.succ hlength, .cons hvalue hlater⟩
    · rintro ⟨hlength, hvalues⟩
      cases hvalues with
      | nil => exact absurd hlength.symm (Nat.succ_ne_zero _)
      | @cons value later front back hvalue hlater =>
        exact ⟨value, front, back, hvalue, ⟨later, back, [], ⟨Nat.succ.inj hlength, hlater⟩,
          ⟨rfl, rfl⟩, (List.append_nil back).symm⟩, rfl⟩

theorem canonicalList_cons_iff {canonical : α → List UInt8 → Prop} {value : α} {values : List α}
    {bytes : List UInt8} : CanonicalList canonical (value :: values) bytes ↔
      ∃ front back, canonical value front ∧ CanonicalList canonical values back ∧
        bytes = front ++ back := by
  constructor
  · intro hvalues
    cases hvalues with
    | cons hvalue hlater => exact ⟨_, _, hvalue, hlater, rfl⟩
  · rintro ⟨front, back, hvalue, hlater, rfl⟩
    exact .cons hvalue hlater

/-! ### A whole byte string -/

def readAll (read : Reader ε α) (fault : ε) (bytes : List UInt8) : Except ε α :=
  match read bytes with
  | .error early => .error early
  | .ok (value, []) => .ok value
  | .ok (_, _ :: _) => .error fault

theorem readAll_eq_ok_iff {fault : ε} {bytes : List UInt8} {value : α} :
    readAll read fault bytes = .ok value ↔ read bytes = .ok (value, []) := by
  unfold readAll
  split
  · next early hread => simp [hread]
  · next first hread => simp [hread]
  · next first byte rest hread => simp [hread]

namespace Codes

variable {canonical : α → List UInt8 → Prop} {read : Reader ε α}

theorem readAll_canonical (hcodes : Codes canonical read) (fault : ε) {value : α}
    {bytes : List UInt8} (hcanonical : canonical value bytes) :
    readAll read fault bytes = .ok value := by
  rw [readAll_eq_ok_iff]
  have hread := hcodes.reads hcanonical []
  rwa [List.append_nil] at hread

theorem readAll_sound (hcodes : Codes canonical read) {fault : ε} {value : α} {bytes : List UInt8}
    (hread : readAll read fault bytes = .ok value) :
    ∃ shortest, canonical value shortest ∧ shortest.length ≤ bytes.length := by
  obtain ⟨front, shortest, hbytes, hcanonical, hshort⟩ :=
    hcodes.sound (readAll_eq_ok_iff.mp hread)
  rw [List.append_nil] at hbytes
  exact ⟨shortest, hcanonical, hbytes ▸ hshort⟩

end Codes

end Crpg.Lib
