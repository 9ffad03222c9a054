import Mathlib.Data.Int.Notation
import Mathlib.Data.List.TakeWhile

/-!
# JSON values and the `jutils` accessors

The parsed documents the daemon reads its configuration from, and the functions
of `JsonUtils.h` that look members up and check their types.  A failure is an
exception, of which `catch (std::logic_error&)` stops the first kind only and
`catch (std::exception&)` the first two, or a violated assertion, which no
handler stops.
-/

namespace IqrfDaemon.Json

inductive Failure
  | logicError (what : String)
  | exception (what : String)
  | abort
  deriving DecidableEq, Repr

namespace Failure

/-- What `catch (std::logic_error&)` stops. -/
def isLogicError : Failure → Bool
  | logicError _ => true
  | _ => false

/-- What `catch (std::exception&)` stops. -/
def isException : Failure → Bool
  | abort => false
  | _ => true

theorem isException_of_isLogicError {e : Failure} (h : e.isLogicError = true) :
    e.isException = true := by
  cases e with
  | logicError what => rfl
  | exception what => cases h
  | abort => cases h

end Failure

theorem exists_ok_of_bind {ε α β : Type} {x : Except ε α} {f : α → Except ε β} {b : β}
    (h : x >>= f = .ok b) : ∃ a, x = .ok a ∧ f a = .ok b := by
  cases x with
  | error e => cases h
  | ok a => exact ⟨a, rfl, h⟩

/-- Numbers are split into integer literals and all others, kept as their text. -/
inductive Value
  | null
  | bool (b : Bool)
  | int (n : ℤ)
  | real (text : String)
  | string (s : String)
  | array (items : List Value)
  | object (members : List (String × Value))

/-- `std::string(GetString())` ends at the first NUL character. -/
def cString (s : String) : String :=
  String.ofList (s.toList.takeWhile (· ≠ '\x00'))

theorem nul_notMem_cString (s : String) : '\x00' ∉ (cString s).toList := by
  rw [cString, String.toList_ofList]
  intro hmem
  simpa using List.mem_takeWhile_imp hmem

theorem cString_eq_self {s : String} (h : '\x00' ∉ s.toList) : cString s = s := by
  have htake : s.toList.takeWhile (· ≠ '\x00') = s.toList := by
    rw [List.takeWhile_eq_self_iff]
    intro c hc
    have hne : c ≠ '\x00' := fun heq ↦ h (heq ▸ hc)
    simpa using hne
  rw [cString, htake, String.ofList_toList]

/-- `FindMember`, which asserts that the value is an object. -/
def findMember (name : String) : Value → Except Failure (Option Value)
  | .object members => .ok (members.lookup name)
  | _ => .error .abort

namespace Jutils

def expected (what name : String) : Failure :=
  .logicError ("Expected: " ++ what ++ ", detected: " ++ name)

def assertIsObject (name : String) : Value → Except Failure (List (String × Value))
  | .object members => .ok members
  | _ => .error (expected "Json Object" name)

def assertIsArray (name : String) : Value → Except Failure (List Value)
  | .array items => .ok items
  | _ => .error (expected "Json Array" name)

def assertIsString (name : String) : Value → Except Failure String
  | .string s => .ok (cString s)
  | _ => .error (expected "std::string" name)

def assertIsBool (name : String) : Value → Except Failure Bool
  | .bool b => .ok b
  | _ => .error (expected "bool" name)

/-- `assertIs<int>`: an integer literal in the range of `int`. -/
def assertIsInt (name : String) : Value → Except Failure ℤ
  | .int n => if -2147483648 ≤ n ∧ n ≤ 2147483647 then .ok n else .error (expected "int" name)
  | _ => .error (expected "int" name)

def getMember (name : String) (v : Value) : Except Failure Value :=
  match findMember name v with
  | .ok (some m) => .ok m
  | .ok none => .error (.logicError ("Expected member: " ++ name))
  | .error e => .error e

/-- `getMemberAs<T>`, by the check of the type `T`. -/
def getMemberAs {T : Type} (assertIs : String → Value → Except Failure T) (name : String)
    (v : Value) : Except Failure T :=
  match getMember name v with
  | .ok m => assertIs name m
  | .error e => .error e

/-- `getPossibleMemberAs<T>`. -/
def getPossibleMemberAs {T : Type} (assertIs : String → Value → Except Failure T)
    (name : String) (v : Value) (defaultVal : T) : Except Failure T :=
  match findMember name v with
  | .ok (some m) => assertIs name m
  | .ok none => .ok defaultVal
  | .error e => .error e

/-- `getMemberAsVector<T>`. -/
def getMemberAsVector {T : Type} (assertIs : String → Value → Except Failure T)
    (name : String) (v : Value) : Except Failure (List T) :=
  match getMember name v with
  | .ok m =>
      match assertIsArray name m with
      | .ok items => items.mapM (assertIs name)
      | .error e => .error e
  | .error e => .error e

/-! ## What the accessors throw -/

/-- The only failures are logic errors. -/
def LogicOnly {T : Type} (r : Except Failure T) : Prop :=
  ∀ e, r = .error e → e.isLogicError = true

section LogicOnly

variable {T U : Type} {assertIs : String → Value → Except Failure T}
  {members : List (String × Value)}

theorem LogicOnly.pure (a : T) : LogicOnly (Pure.pure a) := by
  intro e he
  cases he

theorem LogicOnly.error {e : Failure} (h : e.isLogicError = true) :
    LogicOnly (.error e : Except Failure T) := by
  intro d hd
  cases hd
  exact h

theorem LogicOnly.bind {r : Except Failure T} {f : T → Except Failure U} (hr : LogicOnly r)
    (hf : ∀ a, LogicOnly (f a)) : LogicOnly (r >>= f) := by
  intro e he
  cases r with
  | ok a => exact hf a e he
  | error d =>
      cases he
      exact hr _ rfl

theorem logicOnly_assertIsObject (name : String) (v : Value) :
    LogicOnly (assertIsObject name v) := by
  cases v <;> first | exact .pure _ | exact .error rfl

theorem logicOnly_assertIsArray (name : String) (v : Value) :
    LogicOnly (assertIsArray name v) := by
  cases v <;> first | exact .pure _ | exact .error rfl

theorem logicOnly_assertIsString (name : String) (v : Value) :
    LogicOnly (assertIsString name v) := by
  cases v <;> first | exact .pure _ | exact .error rfl

theorem logicOnly_assertIsBool (name : String) (v : Value) : LogicOnly (assertIsBool name v) := by
  cases v <;> first | exact .pure _ | exact .error rfl

theorem logicOnly_assertIsInt (name : String) (v : Value) : LogicOnly (assertIsInt name v) := by
  cases v with
  | int n =>
      rw [assertIsInt]
      split
      · exact .pure _
      · exact .error rfl
  | _ => exact .error rfl

theorem logicOnly_getMember (name : String) : LogicOnly (getMember name (.object members)) := by
  rw [getMember, findMember]
  cases members.lookup name with
  | none => exact .error rfl
  | some m => exact .pure m

theorem logicOnly_getMemberAs (hassert : ∀ name v, LogicOnly (assertIs name v)) (name : String) :
    LogicOnly (getMemberAs assertIs name (.object members)) := by
  intro e he
  rw [getMemberAs] at he
  cases hm : getMember name (.object members) with
  | ok m =>
      rw [hm] at he
      exact hassert name m e he
  | error d =>
      rw [hm] at he
      cases he
      exact logicOnly_getMember name _ hm

theorem logicOnly_getPossibleMemberAs (hassert : ∀ name v, LogicOnly (assertIs name v))
    (name : String) (defaultVal : T) :
    LogicOnly (getPossibleMemberAs assertIs name (.object members) defaultVal) := by
  rw [getPossibleMemberAs, findMember]
  cases members.lookup name with
  | none => exact .pure defaultVal
  | some m => exact hassert name m

theorem LogicOnly.mapM {f : Value → Except Failure T} (hf : ∀ v, LogicOnly (f v))
    (items : List Value) : LogicOnly (items.mapM f) := by
  induction items with
  | nil => exact .pure []
  | cons v rest ih =>
      rw [List.mapM_cons]
      exact (hf v).bind fun a ↦ ih.bind fun as ↦ .pure (a :: as)

theorem logicOnly_getMemberAsVector (hassert : ∀ name v, LogicOnly (assertIs name v))
    (name : String) : LogicOnly (getMemberAsVector assertIs name (.object members)) := by
  rw [getMemberAsVector]
  cases hm : getMember name (.object members) with
  | error d => exact .error (logicOnly_getMember name d hm)
  | ok m =>
      intro e he
      cases hitems : assertIsArray name m with
      | error d =>
          simp only [hitems] at he
          cases he
          exact logicOnly_assertIsArray name m _ hitems
      | ok items =>
          simp only [hitems] at he
          exact LogicOnly.mapM (hassert name) items e he

end LogicOnly

end Jutils

end IqrfDaemon.Json
