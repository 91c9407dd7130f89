import SocketPrograms.Lib.Attempts
import SocketPrograms.Setup.Descriptors

/-! `SetupServer`, which the vote server and the select server have in the same words, and the
two functions of ch03 for the same purpose. They differ in what they do with an empty list and
with the socket that listens. -/

namespace SocketPrograms.Setup
open Lib
variable {α : Type}

def MAX_PENDING : Nat := 5
def EXIT_FAILURE : Nat := 1

structure ServAddr (α : Type) where
  addr : α
  socket : Option Nat
  bind : Bool
  listen : Bool
  getsockname : Bool
deriving DecidableEq, Repr

inductive ServCall (α : Type) where
  | socket (addr : α) (sock : Option Nat)
  | bind (sock : Nat) (addr : α) (done : Bool)
  | listen (sock backlog : Nat) (done : Bool)
  | getsockname (sock : Nat) (done : Bool)
  | close (sock : Nat)
deriving DecidableEq, Repr

inductive SetupEnd where
  | returned (sock : Int)
  | assertFailed
  | systemMsg (msg : String) (status : Nat)
deriving DecidableEq, Repr

def ServAddr.serve (i : ServAddr α) (sock : Nat) : Bool × List (ServCall α) :=
  if i.bind then (i.listen, [.bind sock i.addr true, .listen sock MAX_PENDING i.listen])
  else (false, [.bind sock i.addr false])

/-- The loop with the value of `sock`, and with what a program does with a socket that listens
before it leaves the loop. -/
def setupFrom (announce : ServAddr α → Nat → SetupEnd × List (ServCall α)) :
    Int → List (ServAddr α) → SetupEnd × List (ServCall α)
  | sock, [] => (.returned sock, [])
  | _, i :: rest =>
      match i.socket with
      | none =>
        let later := setupFrom announce (-1) rest
        (later.1, .socket i.addr none :: later.2)
      | some sock =>
        if (i.serve sock).1 then
          let last := announce i sock
          (last.1, .socket i.addr (some sock) :: (i.serve sock).2 ++ last.2)
        else
          let later := setupFrom announce (-1) rest
          (later.1, .socket i.addr (some sock) :: (i.serve sock).2 ++ .close sock :: later.2)

def silent (_ : ServAddr α) (sock : Nat) : SetupEnd × List (ServCall α) := (.returned sock, [])

def printLocalAddr (i : ServAddr α) (sock : Nat) : SetupEnd × List (ServCall α) :=
  if i.getsockname then (.returned sock, [.getsockname sock true])
  else (.systemMsg "getsockname() failed" EXIT_FAILURE, [.getsockname sock false])

/-- An empty list fails the assertion in front of the loop. -/
def setupServer (list : List (ServAddr α)) : SetupEnd × List (ServCall α) :=
  if list.isEmpty then (.assertFailed, []) else setupFrom silent (-1) list

def setupServerSocket (list : List (ServAddr α)) : SetupEnd × List (ServCall α) :=
  if list.isEmpty then (.returned (-1), []) else setupFrom silent (-1) list

def setupTcpServerSocket (list : List (ServAddr α)) : SetupEnd × List (ServCall α) :=
  if list.isEmpty then (.returned (-1), []) else setupFrom printLocalAddr (-1) list

/-! ### The result -/

def ServAddr.listens (i : ServAddr α) : Bool := i.socket.isSome && i.bind && i.listen

def firstListening (list : List (ServAddr α)) : Option Nat :=
  (list.find? ServAddr.listens).bind ServAddr.socket

structure Sock (α : Type) where
  bound : Option α
  listening : Bool
deriving DecidableEq, Repr

def ServCall.apply (table : Nat → Option (Sock α)) : ServCall α → Nat → Option (Sock α)
  | .socket _ (some sock) => Function.update table sock (some ⟨none, false⟩)
  | .bind sock addr true => Function.update table sock ((table sock).map fun s => { s with bound := some addr })
  | .listen sock _ true => Function.update table sock ((table sock).map fun s => { s with listening := true })
  | .close sock => Function.update table sock none
  | .socket _ none | .bind _ _ false | .listen _ _ false | .getsockname _ _ => table

def socketsLeft (calls : List (ServCall α)) : Nat → Option (Sock α) :=
  calls.foldl ServCall.apply fun _ => none

def ServCall.use (sock : Nat) : ServCall α → Option Use
  | .socket _ made => if made = some sock then some .taken else none
  | .close closed => if closed = sock then some .released else none
  | _ => none

def ServCall.tried : ServCall α → Option α
  | .socket addr _ => some addr
  | _ => none

/-- The descriptor for the first address that can be listened on is left open and listening, and
decides how the program ends. Without such an address the result is -1. Every other descriptor
is closed exactly once, and no address behind the first is tried. -/
structure Serves (ends : ServAddr α → Nat → SetupEnd) (list : List (ServAddr α))
    (run : SetupEnd × List (ServCall α)) : Prop where
  found : ∀ i, list.find? ServAddr.listens = some i → ∃ sock, i.socket = some sock ∧ run.1 = ends i sock ∧
    socketsLeft run.2 = Function.update (fun _ => none) sock (some ⟨some i.addr, true⟩)
  failed : run.1 = .returned (-1) ↔ ∀ i ∈ list, ¬ i.listens
  closes : ∀ sock, ReleasedOnce (decide (firstListening list = some sock)) (run.2.filterMap (ServCall.use sock))
  tried : run.2.filterMap ServCall.tried =
    (list.take (list.findIdx ServAddr.listens + 1)).map ServAddr.addr

def ServAddr.attempt (i : ServAddr α) : Option (ServAddr α × Nat) × List (ServCall α) :=
  match i.socket with
  | none => (none, [.socket i.addr none])
  | some sock =>
    if (i.serve sock).1 then (some (i, sock), .socket i.addr (some sock) :: (i.serve sock).2)
    else (none, .socket i.addr (some sock) :: (i.serve sock).2 ++ [.close sock])

def finish (announce : ServAddr α → Nat → SetupEnd × List (ServCall α)) :
    Option (ServAddr α × Nat) → SetupEnd × List (ServCall α)
  | none => (.returned (-1), [])
  | some (i, sock) => announce i sock

theorem setupFrom_eq (announce : ServAddr α → Nat → SetupEnd × List (ServCall α)) (list : List (ServAddr α)) :
    setupFrom announce (-1) list = ((finish announce (firstOf ServAddr.attempt list).1).1,
      (firstOf ServAddr.attempt list).2 ++ (finish announce (firstOf ServAddr.attempt list).1).2) := by
  induction list with
  | nil => rfl
  | cons i rest ih =>
    cases made : i.socket with
    | none =>
      have fails : i.attempt.1 = none := by simp [ServAddr.attempt, made]
      rw [firstOf_of_failure fails]
      simp [setupFrom, made, ih, ServAddr.attempt]
    | some sock =>
      cases serves : (i.serve sock).1 with
      | true =>
        have succeeds : i.attempt.1 = some (i, sock) := by simp [ServAddr.attempt, made, serves]
        rw [firstOf_of_success succeeds]
        simp [setupFrom, made, serves, finish, ServAddr.attempt]
      | false =>
        have fails : i.attempt.1 = none := by simp [ServAddr.attempt, made, serves]
        rw [firstOf_of_failure fails]
        simp [setupFrom, made, serves, ih, ServAddr.attempt]

theorem attempt_cases (i : ServAddr α) :
    (∃ sock, i.listens = true ∧ i.socket = some sock ∧ i.attempt = (some (i, sock),
      [.socket i.addr (some sock), .bind sock i.addr true, .listen sock MAX_PENDING true])) ∨
    i.listens = false ∧
      (i.attempt = (none, [.socket i.addr none]) ∨ ∃ sock,
        (i.attempt = (none, [.socket i.addr (some sock), .bind sock i.addr false, .close sock]) ∨
          i.attempt = (none, [.socket i.addr (some sock), .bind sock i.addr true,
            .listen sock MAX_PENDING false, .close sock]))) := by
  cases made : i.socket with
  | none => exact Or.inr ⟨by simp [ServAddr.listens, made], Or.inl (by simp [ServAddr.attempt, made])⟩
  | some sock =>
    cases bound : i.bind with
    | false =>
      refine Or.inr ⟨by simp [ServAddr.listens, bound], Or.inr ⟨sock, Or.inl ?_⟩⟩
      simp [ServAddr.attempt, ServAddr.serve, made, bound]
    | true =>
      cases listening : i.listen with
      | false =>
        refine Or.inr ⟨by simp [ServAddr.listens, listening], Or.inr ⟨sock, Or.inr ?_⟩⟩
        simp [ServAddr.attempt, ServAddr.serve, made, bound, listening]
      | true =>
        refine Or.inl ⟨sock, by simp [ServAddr.listens, made, bound, listening], rfl, ?_⟩
        simp [ServAddr.attempt, ServAddr.serve, made, bound, listening]

theorem attempt_tells (i : ServAddr α) : i.attempt.1.isSome = i.listens := by
  rcases attempt_cases i with ⟨sock, listens, -, run⟩ | ⟨fails, run | ⟨sock, run | run⟩⟩
  · rw [run, listens, Option.isSome_some]
  · rw [run, fails, Option.isSome_none]
  · rw [run, fails, Option.isSome_none]
  · rw [run, fails, Option.isSome_none]

theorem attempt_tried (i : ServAddr α) : i.attempt.2.filterMap ServCall.tried = [i.addr] := by
  rcases attempt_cases i with ⟨sock, -, -, run⟩ | ⟨-, run | ⟨sock, run | run⟩⟩
  all_goals
    rw [run]
    rfl

theorem attempt_traceless {i : ServAddr α} (fails : i.listens = false) :
    socketsLeft i.attempt.2 = fun _ => none := by
  have closed (sock : Nat) (opened : Option (Sock α)) :
      Function.update (Function.update (fun _ => none) sock opened) sock none = fun _ : Nat => none := by
    rw [Function.update_idem, Function.update_eq_self_iff]
  rcases attempt_cases i with ⟨sock, listens, -, -⟩ | ⟨-, run | ⟨sock, run | run⟩⟩
  · rw [fails] at listens
    cases listens
  · rw [run]
    rfl
  · rw [run]
    exact closed sock _
  · rw [run]
    simp only [socketsLeft, List.foldl_cons, List.foldl_nil, ServCall.apply, Function.update_idem, closed]

theorem attempt_keeps (sock : Nat) (i : ServAddr α) :
    heldAfter false (i.attempt.2.filterMap (ServCall.use sock)) =
      some (i.attempt.1.any fun found => found.2 = sock) := by
  rcases attempt_cases i with ⟨made, -, -, run⟩ | ⟨-, run | ⟨made, run | run⟩⟩
  · by_cases same : made = sock <;> simp [run, List.filterMap_cons, ServCall.use, heldAfter, same]
  · simp [run, ServCall.use, heldAfter]
  · by_cases same : made = sock <;> simp [run, List.filterMap_cons, ServCall.use, heldAfter, same]
  · by_cases same : made = sock <;> simp [run, List.filterMap_cons, ServCall.use, heldAfter, same]

theorem firstOf_found {list : List (ServAddr α)} {i : ServAddr α}
    (found : list.find? ServAddr.listens = some i) :
    ∃ sock, i.socket = some sock ∧ (firstOf ServAddr.attempt list).1 = some (i, sock) ∧
      socketsLeft (firstOf ServAddr.attempt list).2 =
        Function.update (fun _ => none) sock (some ⟨some i.addr, true⟩) := by
  have listening : i.listens = true := List.find?_some found
  have result := firstOf_result attempt_tells list
  have left := firstOf_foldl attempt_tells (fun _ => attempt_traceless) list
  rw [found, Option.bind_some] at result
  rw [found, Option.elim_some] at left
  rcases attempt_cases i with ⟨sock, -, made, run⟩ | ⟨fails, -⟩
  · rw [run] at result left
    refine ⟨sock, made, result, ?_⟩
    rw [socketsLeft, left]
    simp [ServCall.apply]
  · rw [fails] at listening
    cases listening

theorem firstOf_nobody {list : List (ServAddr α)} (nobody : list.find? ServAddr.listens = none) :
    (firstOf ServAddr.attempt list).1 = none := by
  rw [firstOf_result attempt_tells, nobody, Option.bind_none]

theorem firstListening_eq (list : List (ServAddr α)) :
    firstListening list = (firstOf ServAddr.attempt list).1.map Prod.snd := by
  cases first : list.find? ServAddr.listens with
  | none => rw [firstListening, first, firstOf_nobody first, Option.bind_none, Option.map_none]
  | some i =>
    obtain ⟨sock, made, result, -⟩ := firstOf_found first
    rw [firstListening, first, result, Option.bind_some, made, Option.map_some]

structure Announces (announce : ServAddr α → Nat → SetupEnd × List (ServCall α)) : Prop where
  ends : ∀ i sock, (announce i sock).1 ≠ .returned (-1)
  calls : ∀ i sock, ∀ call ∈ (announce i sock).2, ∃ done, call = .getsockname sock done

theorem silent_announces : Announces (silent (α := α)) where
  ends i sock := by
    intro same
    cases same
  calls i sock call member := absurd member List.not_mem_nil

theorem printLocalAddr_announces : Announces (printLocalAddr (α := α)) where
  ends i sock := by
    unfold printLocalAddr
    split_ifs
    · intro same
      cases same
    · intro same
      cases same
  calls i sock call member := by
    unfold printLocalAddr at member
    split_ifs at member
    · exact ⟨true, List.mem_singleton.mp member⟩
    · exact ⟨false, List.mem_singleton.mp member⟩

theorem getsockname_quiet {sock : Nat} {calls : List (ServCall α)}
    (asks : ∀ call ∈ calls, ∃ done, call = .getsockname sock done) :
    (∀ table, calls.foldl ServCall.apply table = table) ∧
      (∀ fd, calls.filterMap (ServCall.use fd) = []) ∧ calls.filterMap ServCall.tried = [] := by
  induction calls with
  | nil => exact ⟨fun _ => rfl, fun _ => rfl, rfl⟩
  | cons call rest ih =>
    obtain ⟨done, rfl⟩ := asks call List.mem_cons_self
    exact ih fun other member => asks other (List.mem_cons_of_mem _ member)

theorem finish_quiet {announce : ServAddr α → Nat → SetupEnd × List (ServCall α)}
    (announces : Announces announce) (found : Option (ServAddr α × Nat)) :
    (∀ table, (finish announce found).2.foldl ServCall.apply table = table) ∧
      (∀ fd, (finish announce found).2.filterMap (ServCall.use fd) = []) ∧
        (finish announce found).2.filterMap ServCall.tried = [] := by
  cases found with
  | none => exact ⟨fun _ => rfl, fun _ => rfl, rfl⟩
  | some found => exact getsockname_quiet (announces.calls found.1 found.2)

theorem setupFrom_serves {announce : ServAddr α → Nat → SetupEnd × List (ServCall α)}
    (announces : Announces announce) (list : List (ServAddr α)) :
    Serves (fun i sock => (announce i sock).1) list (setupFrom announce (-1) list) := by
  obtain ⟨still, unused, untried⟩ := finish_quiet announces (firstOf ServAddr.attempt list).1
  rw [setupFrom_eq]
  constructor
  · intro i first
    obtain ⟨sock, made, result, left⟩ := firstOf_found first
    refine ⟨sock, made, by rw [result, finish], ?_⟩
    rw [socketsLeft, List.foldl_append, still]
    exact left
  · rw [← List.find?_eq_none]
    cases first : list.find? ServAddr.listens with
    | none => exact iff_of_true (by rw [firstOf_nobody first, finish]) rfl
    | some i =>
      obtain ⟨sock, -, result, -⟩ := firstOf_found first
      refine iff_of_false ?_ (Option.some_ne_none i)
      rw [result]
      exact announces.ends i sock
  · intro sock
    have held := firstOf_heldAfter (ServCall.use sock) _ (attempt_keeps sock) list
    apply releasedOnce_of_heldAfter
    rw [List.filterMap_append, unused, List.append_nil, held, firstListening_eq]
    cases (firstOf ServAddr.attempt list).1 <;> simp
  · rw [List.filterMap_append, untried, List.append_nil, firstOf_events attempt_tells, List.filterMap_flatMap]
    simp only [attempt_tried, List.map_eq_flatMap]

theorem firstListening_none (list : List (ServAddr α)) :
    firstListening list = none ↔ ∀ i ∈ list, ¬ i.listens := by
  rw [← List.find?_eq_none]
  cases first : list.find? ServAddr.listens with
  | none => exact iff_of_true (by rw [firstListening, first, Option.bind_none]) rfl
  | some i =>
    obtain ⟨sock, made, -⟩ := firstOf_found first
    rw [firstListening, first, Option.bind_some, made]
    exact iff_of_false (Option.some_ne_none sock) (Option.some_ne_none i)

theorem setupServer_result {list : List (ServAddr α)} (nonempty : list ≠ []) :
    (setupServer list).1 = .returned (asInt (firstListening list)) := by
  rw [setupServer, if_neg (by simpa using nonempty), setupFrom_eq, firstListening_eq]
  cases (firstOf ServAddr.attempt list).1 <;> rfl

/-- The three functions serve on the first address of their list that can be listened on. Where
`getsockname` fails for the socket, the last of them ends the process instead. -/
theorem setup_serves (list : List (ServAddr α)) :
    (list ≠ [] → Serves (fun _ sock => .returned sock) list (setupServer list)) ∧
    Serves (fun _ sock => .returned sock) list (setupServerSocket list) ∧
    Serves (fun i sock => if i.getsockname then .returned sock else .systemMsg "getsockname() failed" EXIT_FAILURE)
      list (setupTcpServerSocket list) := by
  have named : (fun (i : ServAddr α) sock => (printLocalAddr i sock).1) = fun i sock =>
      if i.getsockname then .returned sock else .systemMsg "getsockname() failed" EXIT_FAILURE := by
    funext i sock
    unfold printLocalAddr
    split_ifs <;> rfl
  have quiet := setupFrom_serves silent_announces list
  have asking := setupFrom_serves printLocalAddr_announces list
  rw [named] at asking
  refine ⟨fun nonempty => ?_, ?_, ?_⟩
  · rw [setupServer, if_neg (by simpa using nonempty)]
    exact quiet
  · cases list <;> exact quiet
  · cases list <;> exact asking

/-- `listen` fails for the first address, and the second gets the same descriptor. -/
theorem setup_serves_second : Serves (fun _ sock => .returned sock)
    [(⟨1, some 3, true, false, true⟩ : ServAddr Nat), ⟨2, some 3, true, true, true⟩]
      (setupServer [⟨1, some 3, true, false, true⟩, ⟨2, some 3, true, true, true⟩]) :=
  (setup_serves _).1 (List.cons_ne_nil _ _)

/-- A socket that listens, and whose address `getsockname` does not tell; and the list that the
assertion is against. -/
theorem unnamed_exits :
    ¬ Serves (fun _ sock => .returned sock) [(⟨(), some 3, true, true, false⟩ : ServAddr Unit)]
      (setupTcpServerSocket [⟨(), some 3, true, true, false⟩]) ∧
    (setupServer ([] : List (ServAddr Unit))).1 = .assertFailed ∧
    ¬ Serves (fun _ sock => .returned sock) ([] : List (ServAddr Unit)) (setupServer []) := by
  refine ⟨fun serves => ?_, rfl, fun serves => ?_⟩
  · obtain ⟨sock, -, result, -⟩ := serves.found _ rfl
    have exited : (setupTcpServerSocket [(⟨(), some 3, true, true, false⟩ : ServAddr Unit)]).1 =
      .systemMsg "getsockname() failed" EXIT_FAILURE := rfl
    rw [exited] at result
    cases result
  · have result := serves.failed.mpr (fun i member => absurd member List.not_mem_nil)
    cases result

end SocketPrograms.Setup
