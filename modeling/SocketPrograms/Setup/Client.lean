import SocketPrograms.Setup.Descriptors

/-! `SetupClient` of `Utils.c`, which `TCPClientUtility.c` has under another name, and the
caller's test of what it returns. -/

namespace SocketPrograms.Setup
variable {α : Type}

structure Addr (α : Type) where
  addr : α
  socket : Option Nat
  connect : Bool
deriving DecidableEq, Repr

/-- The loop of `SetupClient`: the value of `sock` behind it and the calls on the way. The
descriptor that is closed stays in `sock`. -/
def setupClientFrom : Int → List (Addr α) → Int × List (Call α)
  | sock, [] => (sock, [])
  | _, addr :: rest =>
      match addr.socket with
      | none =>
        let (result, calls) := setupClientFrom (-1) rest
        (result, .socket none :: calls)
      | some sock =>
        if addr.connect then (sock, [.socket (some sock), .connect sock addr.addr true])
        else
          let (result, calls) := setupClientFrom sock rest
          (result, [.socket (some sock), .connect sock addr.addr false, .close sock] ++ calls)

def setupClient (list : List (Addr α)) : Int × List (Call α) := setupClientFrom (-1) list

inductive Start where
  | exited
  | fdopen (sock : Int)
deriving DecidableEq, Repr

def start (sock : Int) : Start := if sock < 0 then .exited else .fdopen sock

def Addr.connects (addr : Addr α) : Bool := addr.socket.isSome && addr.connect

/-- A descriptor comes back exactly from a list with an address that connects. It is
connected to the first such address and nothing else is left open. -/
structure Reliable (list : List (Addr α)) : Prop where
  descriptor : 0 ≤ (setupClient list).1 ↔ ∃ addr ∈ list, addr.connects
  first : ∀ addr, list.find? Addr.connects = some addr → ∃ sock : Nat, addr.socket = some sock ∧
    (setupClient list).1 = sock ∧ leftOpen (setupClient list).2 sock = .connected addr.addr
  others : ∀ sock : Nat, (sock : Int) ≠ (setupClient list).1 → leftOpen (setupClient list).2 sock = .closed
  failed : (∀ addr ∈ list, ¬ addr.connects) → (setupClient list).1 = -1
  started : ∀ sock : Nat, start (setupClient list).1 = .fdopen sock → leftOpen (setupClient list).2 sock ≠ .closed

theorem setupClientFrom_cons (sock : Int) (addr : Addr α) (rest : List (Addr α)) :
    (∃ fd, addr.socket = some fd ∧ addr.connects ∧
      setupClientFrom sock (addr :: rest) = ((fd : Int), [Call.socket (some fd), Call.connect fd addr.addr true])) ∨
    (¬ addr.connects ∧
      (setupClientFrom sock (addr :: rest)).1 = (setupClientFrom (asInt addr.socket) rest).1 ∧
      leftOpen (setupClientFrom sock (addr :: rest)).2 = leftOpen (setupClientFrom (asInt addr.socket) rest).2) := by
  cases made : addr.socket with
  | none =>
    right
    refine ⟨by simp [Addr.connects, made], ?_, ?_⟩
    · simp [setupClientFrom, made, asInt]
    · simp only [setupClientFrom, made, leftOpen_failed, asInt]
  | some fd =>
    cases done : addr.connect with
    | true =>
      left
      exact ⟨fd, rfl, by simp [Addr.connects, made, done], by simp [setupClientFrom, made, done]⟩
    | false =>
      right
      refine ⟨by simp [Addr.connects, done], ?_, ?_⟩
      · simp [setupClientFrom, made, done, asInt]
      · simp only [setupClientFrom, made, done, Bool.false_eq_true, if_false, leftOpen_closed, asInt]

theorem setupClientFrom_connected {list : List (Addr α)} {addr : Addr α}
    (found : list.find? Addr.connects = some addr) (sock : Int) :
    ∃ fd : Nat, addr.socket = some fd ∧ (setupClientFrom sock list).1 = fd ∧
      leftOpen (setupClientFrom sock list).2 = Function.update (fun _ => .closed) fd (.connected addr.addr) := by
  induction list generalizing sock with
  | nil => cases found
  | cons next rest ih =>
    rcases setupClientFrom_cons sock next rest with ⟨fd, made, connects, result⟩ | ⟨fails, result, left⟩
    · rw [List.find?_cons_of_pos connects, Option.some.injEq] at found
      rw [← found, result]
      exact ⟨fd, made, rfl, leftOpen_connected fd next.addr⟩
    · rw [List.find?_cons_of_neg fails] at found
      rw [result, left]
      exact ih found _

/-- Without a connection nothing is left open, and `sock` is what the last call of `socket`
returned. -/
theorem setupClientFrom_failed {list : List (Addr α)} (fails : ∀ addr ∈ list, ¬ addr.connects) (sock : Int) :
    (setupClientFrom sock list).1 = list.getLast?.elim sock (fun addr => asInt addr.socket) ∧
      leftOpen (setupClientFrom sock list).2 = fun _ => .closed := by
  induction list generalizing sock with
  | nil => exact ⟨rfl, rfl⟩
  | cons next rest ih =>
    rcases setupClientFrom_cons sock next rest with ⟨fd, made, connects, result⟩ | ⟨unconnected, result, left⟩
    · exact absurd connects (fails next List.mem_cons_self)
    · have onward := ih (fun addr member => fails addr (List.mem_cons_of_mem next member)) (asInt next.socket)
      rw [result, left, onward.1, onward.2, List.getLast?_cons]
      cases rest.getLast? <;> simp

theorem reliable_connected {list : List (Addr α)} (connects : ∃ addr ∈ list, addr.connects) : Reliable list := by
  obtain ⟨addr, found⟩ := Option.isSome_iff_exists.mp (List.find?_isSome.mpr connects)
  obtain ⟨fd, made, result, left⟩ := setupClientFrom_connected found (-1)
  have here : leftOpen (setupClient list).2 fd = .connected addr.addr := by
    rw [setupClient, left, Function.update_self]
  refine ⟨iff_of_true ?_ connects, ?_, ?_, fun none => ?_, ?_⟩
  · rw [setupClient, result]
    exact Int.natCast_nonneg fd
  · intro addr' found'
    obtain rfl : addr = addr' := Option.some.inj (found.symm.trans found')
    exact ⟨fd, made, result, here⟩
  · intro sock other
    have apart : sock ≠ fd := fun same => other (by rw [setupClient, result, same])
    rw [setupClient, left, Function.update_of_ne apart]
  · obtain ⟨addr, member, connected⟩ := connects
    exact absurd connected (none addr member)
  · intro sock started
    rw [start, setupClient, result, if_neg (Int.not_lt.mpr (Int.natCast_nonneg fd)), Start.fdopen.injEq,
      Int.ofNat_inj] at started
    rw [← started, here]
    simp

theorem reliable_unconnected {list : List (Addr α)} (fails : ∀ addr ∈ list, ¬ addr.connects) :
    Reliable list ↔ (setupClient list).1 = -1 := by
  have left := (setupClientFrom_failed fails (-1)).2
  have none : list.find? Addr.connects = none := List.find?_eq_none.mpr fails
  constructor
  · intro reliable
    exact reliable.failed fails
  · intro failed
    have nobody : ¬ ∃ addr ∈ list, addr.connects := fun ⟨addr, member, done⟩ => fails addr member done
    refine ⟨iff_of_false (by omega) nobody, ?_, ?_, fun _ => failed, ?_⟩
    · intro addr found
      rw [none] at found
      cases found
    · intro sock other
      rw [setupClient, left]
    · intro sock started
      rw [failed] at started
      cases started

/-- The result is right when some address connects or the last call of `socket` fails. The
descriptor of a last address that does not connect is returned although it is closed. -/
theorem reliable_iff (list : List (Addr α)) :
    Reliable list ↔ (∃ addr ∈ list, addr.connects) ∨ ∀ addr ∈ list.getLast?, addr.socket = none := by
  by_cases connects : ∃ addr ∈ list, addr.connects
  · exact iff_of_true (reliable_connected connects) (Or.inl connects)
  have fails : ∀ addr ∈ list, ¬ addr.connects := fun addr member done => connects ⟨addr, member, done⟩
  have result := (setupClientFrom_failed fails (-1)).1
  rw [or_iff_right connects, reliable_unconnected fails, setupClient, result]
  cases last : list.getLast? with
  | none => simp
  | some addr => simp [asInt_eq_iff]

/-- One address, which refuses the connection. -/
theorem stale_descriptor : ¬ Reliable [(⟨(), some 3, false⟩ : Addr Unit)] := by
  intro reliable
  have returned : (setupClient [(⟨(), some 3, false⟩ : Addr Unit)]).1 = 3 := rfl
  have unconnected : ¬ ∃ addr ∈ [(⟨(), some 3, false⟩ : Addr Unit)], addr.connects := by decide
  exact unconnected (reliable.descriptor.mp (by omega))

end SocketPrograms.Setup
