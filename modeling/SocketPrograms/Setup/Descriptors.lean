import Mathlib.Logic.Function.Basic

/-! The descriptors of a process as the calls that set up a socket leave them, for addresses
of any type. -/

namespace SocketPrograms.Setup
variable {α : Type}

inductive Status (α : Type) where
  | closed
  | opened
  | connected (addr : α)
deriving DecidableEq, Repr

/-- A call and its result. A call of `socket` that fails returns -1. -/
inductive Call (α : Type) where
  | socket (sock : Option Nat)
  | connect (sock : Nat) (addr : α) (done : Bool)
  | close (sock : Nat)
deriving DecidableEq, Repr

def Call.apply (table : Nat → Status α) : Call α → Nat → Status α
  | .socket none => table
  | .socket (some sock) => Function.update table sock .opened
  | .connect sock addr true => Function.update table sock (.connected addr)
  | .connect _ _ false => table
  | .close sock => Function.update table sock .closed

def leftOpen (calls : List (Call α)) : Nat → Status α := calls.foldl Call.apply fun _ => .closed

def asInt : Option Nat → Int
  | none => -1
  | some sock => sock

theorem asInt_eq_iff (sock : Option Nat) : asInt sock = -1 ↔ sock = none := by
  cases sock <;> simp [asInt]

theorem leftOpen_closed (sock : Nat) (addr : α) (calls : List (Call α)) :
    leftOpen ([.socket (some sock), .connect sock addr false, .close sock] ++ calls) = leftOpen calls := by
  have closed : Function.update (Function.update (fun _ => Status.closed) sock .opened) sock .closed =
      fun _ : Nat => (Status.closed : Status α) := by
    rw [Function.update_idem, Function.update_eq_self_iff]
  simp only [leftOpen, List.cons_append, List.nil_append, List.foldl_cons, Call.apply, closed]

theorem leftOpen_failed (calls : List (Call α)) : leftOpen (.socket none :: calls) = leftOpen calls := rfl

theorem leftOpen_connected (sock : Nat) (addr : α) :
    leftOpen [.socket (some sock), .connect sock addr true] =
      Function.update (fun _ => .closed) sock (.connected addr) := by
  simp only [leftOpen, List.foldl_cons, List.foldl_nil, Call.apply, Function.update_idem]

end SocketPrograms.Setup
