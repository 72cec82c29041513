import AsioExamples.Http.CharClass

/-! Requests and their headers, and the ways the parsers add a byte to one. -/

namespace AsioExamples.Http

set_option autoImplicit false

structure Header where
  name : Bytes
  value : Bytes
deriving DecidableEq, Repr

/-- The `int` version fields have no initialiser: `none` is an `int` nobody has set. Their
arithmetic wraps at 32 bits, where the standard leaves a signed overflow undefined. -/
structure Request where
  method : Bytes
  uri : Bytes
  httpVersionMajor : Option Int32
  httpVersionMinor : Option Int32
  headers : List Header
deriving DecidableEq, Repr

def Request.fresh : Request := ⟨[], [], none, none, []⟩

/-- Change the last element, as a write through `back()` does. -/
def modifyBack {α : Type} (f : α → α) : List α → List α
  | [] => []
  | [a] => [f a]
  | a :: b :: l => a :: modifyBack f (b :: l)

@[simp] theorem modifyBack_concat {α : Type} (f : α → α) (l : List α) (a : α) :
    modifyBack f (l ++ [a]) = l ++ [f a] := by
  induction l with
  | nil => rfl
  | cons b l ih =>
    cases l with
    | nil => rfl
    | cons c l => simpa [modifyBack] using ih

@[simp] theorem modifyBack_eq_nil {α : Type} (f : α → α) (l : List α) :
    modifyBack f l = [] ↔ l = [] := by
  rcases List.eq_nil_or_concat l with rfl | ⟨l, a, rfl⟩
  · exact Iff.rfl
  · simp

theorem modifyBack_modifyBack {α : Type} (f g : α → α) (l : List α) :
    modifyBack g (modifyBack f l) = modifyBack (fun a => g (f a)) l := by
  rcases List.eq_nil_or_concat l with rfl | ⟨l, a, rfl⟩
  · rfl
  · simp

theorem modifyBack_id {α : Type} (l : List α) : modifyBack (fun a => a) l = l := by
  rcases List.eq_nil_or_concat l with rfl | ⟨l, a, rfl⟩
  · rfl
  · simp

namespace Request

def pushMethod (r : Request) (c : UInt8) : Request := { r with method := r.method ++ [c] }

def pushUri (r : Request) (c : UInt8) : Request := { r with uri := r.uri ++ [c] }

/-- `version * 10 + c - '0'`, evaluated in `int`. -/
def digitInto (v : Int32) (c : UInt8) : Int32 := v * 10 + Int32.ofInt (toInt c) - 48

def pushMajor (r : Request) (c : UInt8) : Request :=
  { r with httpVersionMajor := r.httpVersionMajor.map (digitInto · c) }

def pushMinor (r : Request) (c : UInt8) : Request :=
  { r with httpVersionMinor := r.httpVersionMinor.map (digitInto · c) }

def resetVersion (r : Request) : Request :=
  { r with httpVersionMajor := some 0, httpVersionMinor := some 0 }

def pushHeader (r : Request) : Request := { r with headers := r.headers ++ [⟨[], []⟩] }

def pushName (r : Request) (c : UInt8) : Request :=
  { r with headers := modifyBack (fun h => { h with name := h.name ++ [c] }) r.headers }

def pushValue (r : Request) (c : UInt8) : Request :=
  { r with headers := modifyBack (fun h => { h with value := h.value ++ [c] }) r.headers }

end Request

end AsioExamples.Http
