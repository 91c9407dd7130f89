import SocketPrograms.Setup.Server

/-! `get_listener_socket` of the poll servers, with `get_binded_socket` of `poll_server2.c`. Other
than in `SetupServer`, `listen` is behind the loop over the addresses, so that the first address
that can be bound decides. -/

namespace SocketPrograms.Setup
open Lib
variable {α : Type}

namespace Listener

def MAX_PENDING : Nat := 10

/-- The loop over the addresses. What `setsockopt` returns is not looked at. -/
def bindFrom : List (ServAddr α) → Option (ServAddr α × Nat) × List (ServCall α)
  | [] => (none, [])
  | p :: rest =>
      match p.socket with
      | none =>
        let later := bindFrom rest
        (later.1, .socket p.addr none :: later.2)
      | some sock =>
        if p.bind then (some (p, sock), [.socket p.addr (some sock), .bind sock p.addr true])
        else
          let later := bindFrom rest
          (later.1, .socket p.addr (some sock) :: .bind sock p.addr false :: .close sock :: later.2)

def getListener (unbound unheard : SetupEnd) (list : List (ServAddr α)) : SetupEnd × List (ServCall α) :=
  match bindFrom list with
  | (none, calls) => (unbound, calls)
  | (some (p, sock), calls) =>
    if p.listen then (.returned sock, calls ++ [.listen sock MAX_PENDING true])
    else (unheard, calls ++ [.listen sock MAX_PENDING false])

end Listener

namespace PollServer

/-- Both failures return -1. -/
def getListenerSocket : List (ServAddr α) → SetupEnd × List (ServCall α) :=
  Listener.getListener (.returned (-1)) (.returned (-1))

end PollServer

namespace PollServer2

/-- Both failures end the process. -/
def getListenerSocket : List (ServAddr α) → SetupEnd × List (ServCall α) :=
  Listener.getListener (.systemMsg "bind()" EXIT_FAILURE) (.systemMsg "listen()" EXIT_FAILURE)

end PollServer2

def ServAddr.binds (p : ServAddr α) : Bool := p.socket.isSome && p.bind

def firstBound (list : List (ServAddr α)) : Option Nat := (list.find? ServAddr.binds).bind ServAddr.socket

/-- The first address that can be bound decides, whether it can be listened on or not: its descriptor
is left open in either case. Every other descriptor is closed exactly once, and no address behind
the first is tried. -/
structure ListensOnFirst (unbound unheard : SetupEnd) (list : List (ServAddr α))
    (run : SetupEnd × List (ServCall α)) : Prop where
  found : ∀ p, list.find? ServAddr.binds = some p → ∃ sock, p.socket = some sock ∧
    run.1 = (if p.listen then .returned sock else unheard) ∧
      socketsLeft run.2 = Function.update (fun _ => none) sock (some ⟨some p.addr, p.listen⟩)
  failed : (∀ p ∈ list, ¬ p.binds) → run.1 = unbound ∧ socketsLeft run.2 = fun _ => none
  closes : ∀ sock, ReleasedOnce (decide (firstBound list = some sock)) (run.2.filterMap (ServCall.use sock))
  tried : run.2.filterMap ServCall.tried = (list.take (list.findIdx ServAddr.binds + 1)).map ServAddr.addr

/-! ### The loop as attempts -/

def ServAddr.bindAttempt (p : ServAddr α) : Option (ServAddr α × Nat) × List (ServCall α) :=
  match p.socket with
  | none => (none, [.socket p.addr none])
  | some sock =>
    if p.bind then (some (p, sock), [.socket p.addr (some sock), .bind sock p.addr true])
    else (none, [.socket p.addr (some sock), .bind sock p.addr false, .close sock])

theorem bindFrom_eq (list : List (ServAddr α)) : Listener.bindFrom list = firstOf ServAddr.bindAttempt list := by
  induction list with
  | nil => rfl
  | cons p rest ih =>
    cases made : p.socket with
    | none =>
      have fails : p.bindAttempt.1 = none := by simp [ServAddr.bindAttempt, made]
      rw [firstOf_of_failure fails, ← ih]
      simp [Listener.bindFrom, ServAddr.bindAttempt, made]
    | some sock =>
      cases bound : p.bind with
      | true =>
        have succeeds : p.bindAttempt.1 = some (p, sock) := by simp [ServAddr.bindAttempt, made, bound]
        rw [firstOf_of_success succeeds]
        simp [Listener.bindFrom, ServAddr.bindAttempt, made, bound]
      | false =>
        have fails : p.bindAttempt.1 = none := by simp [ServAddr.bindAttempt, made, bound]
        rw [firstOf_of_failure fails, ← ih]
        simp [Listener.bindFrom, ServAddr.bindAttempt, made, bound]

theorem bindAttempt_cases (p : ServAddr α) :
    (∃ sock, p.binds = true ∧ p.socket = some sock ∧
      p.bindAttempt = (some (p, sock), [.socket p.addr (some sock), .bind sock p.addr true])) ∨
    p.binds = false ∧ (p.bindAttempt = (none, [.socket p.addr none]) ∨ ∃ sock,
      p.bindAttempt = (none, [.socket p.addr (some sock), .bind sock p.addr false, .close sock])) := by
  cases made : p.socket with
  | none => exact Or.inr ⟨by simp [ServAddr.binds, made], Or.inl (by simp [ServAddr.bindAttempt, made])⟩
  | some sock =>
    cases bound : p.bind with
    | true =>
      refine Or.inl ⟨sock, by simp [ServAddr.binds, made, bound], rfl, ?_⟩
      simp [ServAddr.bindAttempt, made, bound]
    | false =>
      refine Or.inr ⟨by simp [ServAddr.binds, bound], Or.inr ⟨sock, ?_⟩⟩
      simp [ServAddr.bindAttempt, made, bound]

theorem bindAttempt_tells (p : ServAddr α) : p.bindAttempt.1.isSome = p.binds := by
  rcases bindAttempt_cases p with ⟨sock, binds, -, run⟩ | ⟨fails, run | ⟨sock, run⟩⟩
  · rw [run, binds, Option.isSome_some]
  · rw [run, fails, Option.isSome_none]
  · rw [run, fails, Option.isSome_none]

theorem bindAttempt_tried (p : ServAddr α) : p.bindAttempt.2.filterMap ServCall.tried = [p.addr] := by
  rcases bindAttempt_cases p with ⟨sock, -, -, run⟩ | ⟨-, run | ⟨sock, run⟩⟩
  all_goals
    rw [run]
    rfl

theorem bindAttempt_traceless {p : ServAddr α} (fails : p.binds = false) :
    socketsLeft p.bindAttempt.2 = fun _ => none := by
  rcases bindAttempt_cases p with ⟨sock, binds, -, -⟩ | ⟨-, run | ⟨sock, run⟩⟩
  · rw [fails] at binds
    cases binds
  · rw [run]
    rfl
  · rw [run]
    simp only [socketsLeft, List.foldl_cons, List.foldl_nil, ServCall.apply, Function.update_idem]
    exact Function.update_eq_self_iff.mpr rfl

theorem bindAttempt_keeps (sock : Nat) (p : ServAddr α) :
    heldAfter false (p.bindAttempt.2.filterMap (ServCall.use sock)) =
      some (p.bindAttempt.1.any fun found => found.2 = sock) := by
  rcases bindAttempt_cases p with ⟨made, -, -, run⟩ | ⟨-, run | ⟨made, run⟩⟩
  · by_cases same : made = sock <;> simp [run, List.filterMap_cons, ServCall.use, heldAfter, same]
  · simp [run, ServCall.use, heldAfter]
  · by_cases same : made = sock <;> simp [run, List.filterMap_cons, ServCall.use, heldAfter, same]

theorem bindFrom_found {list : List (ServAddr α)} {p : ServAddr α} (found : list.find? ServAddr.binds = some p) :
    ∃ sock, p.socket = some sock ∧ (Listener.bindFrom list).1 = some (p, sock) ∧
      socketsLeft (Listener.bindFrom list).2 = Function.update (fun _ => none) sock (some ⟨some p.addr, false⟩) := by
  have bound : p.binds = true := List.find?_some found
  have result := firstOf_result bindAttempt_tells list
  have left := firstOf_foldl bindAttempt_tells (fun _ => bindAttempt_traceless) list
  rw [found, Option.bind_some] at result
  rw [found, Option.elim_some] at left
  rw [bindFrom_eq]
  rcases bindAttempt_cases p with ⟨sock, -, made, run⟩ | ⟨fails, -⟩
  · rw [run] at result left
    refine ⟨sock, made, result, ?_⟩
    rw [socketsLeft, left]
    simp [ServCall.apply]
  · rw [fails] at bound
    cases bound

theorem bindFrom_nobody {list : List (ServAddr α)} (nobody : list.find? ServAddr.binds = none) :
    (Listener.bindFrom list).1 = none ∧ socketsLeft (Listener.bindFrom list).2 = fun _ => none := by
  have left : socketsLeft (firstOf ServAddr.bindAttempt list).2 = _ :=
    firstOf_foldl bindAttempt_tells (fun _ => bindAttempt_traceless) list
  rw [nobody, Option.elim_none] at left
  rw [bindFrom_eq, firstOf_result bindAttempt_tells, nobody, Option.bind_none]
  exact ⟨rfl, left⟩

theorem firstBound_eq (list : List (ServAddr α)) : firstBound list = (Listener.bindFrom list).1.map Prod.snd := by
  cases first : list.find? ServAddr.binds with
  | none => rw [firstBound, first, (bindFrom_nobody first).1, Option.bind_none, Option.map_none]
  | some p =>
    obtain ⟨sock, made, result, -⟩ := bindFrom_found first
    rw [firstBound, first, result, Option.bind_some, made, Option.map_some]

section getListener
variable (unbound unheard : SetupEnd) {list : List (ServAddr α)}

theorem getListener_bound {p : ServAddr α} {sock : Nat} (bound : (Listener.bindFrom list).1 = some (p, sock)) :
    Listener.getListener unbound unheard list = (if p.listen then .returned sock else unheard,
      (Listener.bindFrom list).2 ++ [.listen sock Listener.MAX_PENDING p.listen]) := by
  have split : Listener.bindFrom list = (some (p, sock), (Listener.bindFrom list).2) := Prod.ext bound rfl
  rw [Listener.getListener, split]
  cases heard : p.listen <;> simp [heard]

theorem getListener_unbound (nobody : (Listener.bindFrom list).1 = none) :
    Listener.getListener unbound unheard list = (unbound, (Listener.bindFrom list).2) := by
  have split : Listener.bindFrom list = (none, (Listener.bindFrom list).2) := Prod.ext nobody rfl
  rw [Listener.getListener, split]

theorem getListener_calls (list : List (ServAddr α)) :
    (∀ sock, (Listener.getListener unbound unheard list).2.filterMap (ServCall.use sock) =
      (Listener.bindFrom list).2.filterMap (ServCall.use sock)) ∧
    (Listener.getListener unbound unheard list).2.filterMap ServCall.tried =
      (Listener.bindFrom list).2.filterMap ServCall.tried := by
  cases bound : (Listener.bindFrom list).1 with
  | none => simp [getListener_unbound unbound unheard bound]
  | some found => simp [getListener_bound unbound unheard (p := found.1) bound, ServCall.use, ServCall.tried]

theorem getListener_first (list : List (ServAddr α)) :
    ListensOnFirst unbound unheard list (Listener.getListener unbound unheard list) := by
  obtain ⟨uses, tries⟩ := getListener_calls unbound unheard list
  constructor
  · intro p first
    obtain ⟨sock, made, bound, left⟩ := bindFrom_found first
    rw [getListener_bound unbound unheard bound]
    refine ⟨sock, made, rfl, ?_⟩
    rw [socketsLeft, List.foldl_append]
    rw [socketsLeft] at left
    rw [left]
    cases p.listen <;> simp [ServCall.apply]
  · intro nobody
    obtain ⟨unfound, left⟩ := bindFrom_nobody (List.find?_eq_none.mpr nobody)
    rw [getListener_unbound unbound unheard unfound]
    exact ⟨rfl, left⟩
  · intro sock
    have held := firstOf_heldAfter (ServCall.use sock) _ (bindAttempt_keeps sock) list
    apply releasedOnce_of_heldAfter
    rw [uses, bindFrom_eq, held, firstBound_eq, bindFrom_eq]
    cases (firstOf ServAddr.bindAttempt list).1 <;> simp
  · rw [tries, bindFrom_eq, firstOf_events bindAttempt_tells, List.filterMap_flatMap]
    simp only [bindAttempt_tried, List.map_eq_flatMap]

end getListener

/-! ### Against `SetupServer` -/

/-- An address that can be bound and not listened on hides no other. -/
def NoneHidden (list : List (ServAddr α)) : Prop :=
  ∀ p, list.find? ServAddr.binds = some p → p.listen = false → ∀ q ∈ list, ¬ q.listens

theorem listens_eq (p : ServAddr α) : p.listens = (p.binds && p.listen) := rfl

theorem find?_listens {list : List (ServAddr α)} {p : ServAddr α} (first : list.find? ServAddr.binds = some p)
    (heard : p.listen = true) : list.find? ServAddr.listens = some p := by
  induction list with
  | nil => cases first
  | cons q rest ih =>
    cases bound : q.binds with
    | true =>
      rw [List.find?_cons_of_pos bound] at first
      obtain rfl := Option.some.inj first
      exact List.find?_cons_of_pos (by rw [listens_eq, bound, heard]; rfl)
    | false =>
      rw [List.find?_cons_of_neg (by simp [bound])] at first
      rw [List.find?_cons_of_neg (by simp [listens_eq, bound])]
      exact ih first

theorem getListenerSocket_alike_iff {list : List (ServAddr α)} (nonempty : list ≠ []) :
    (PollServer.getListenerSocket list).1 = (setupServer list).1 ↔ NoneHidden list := by
  rw [setupServer_result nonempty, PollServer.getListenerSocket]
  cases first : list.find? ServAddr.binds with
  | none =>
    have unbound : (Listener.bindFrom list).1 = none := (bindFrom_nobody first).1
    have silent : firstListening list = none := by
      rw [firstListening_none]
      intro p member
      have fails := List.find?_eq_none.mp first p member
      simpa [listens_eq] using fun binds => absurd binds fails
    rw [getListener_unbound _ _ unbound, silent]
    exact iff_of_true rfl fun p found => by rw [first] at found; cases found
  | some p =>
    obtain ⟨sock, made, bound, -⟩ := bindFrom_found first
    rw [getListener_bound _ _ bound]
    cases heard : p.listen with
    | true =>
      have same : firstListening list = some sock := by
        rw [firstListening, find?_listens first heard, Option.bind_some, made]
      rw [same]
      refine iff_of_true rfl fun q found unheard => ?_
      rw [first, Option.some.injEq] at found
      rw [← found, heard] at unheard
      cases unheard
    | false =>
      have hidden : NoneHidden list ↔ firstListening list = none := by
        rw [firstListening_none]
        refine ⟨fun hidden => hidden p first heard, fun nobody q _ _ => nobody⟩
      rw [hidden, ← asInt_eq_iff]
      exact ⟨fun same => (SetupEnd.returned.inj same).symm, fun same => congrArg SetupEnd.returned same.symm⟩

/-- Both poll servers listen on the first address that can be bound or on none, and the first of them
gets the result of `SetupServer` exactly when this address hides no other. -/
theorem listener_sockets (list : List (ServAddr α)) :
    ListensOnFirst (.returned (-1)) (.returned (-1)) list (PollServer.getListenerSocket list) ∧
      ListensOnFirst (.systemMsg "bind()" EXIT_FAILURE) (.systemMsg "listen()" EXIT_FAILURE) list
        (PollServer2.getListenerSocket list) ∧
      (list ≠ [] → ((PollServer.getListenerSocket list).1 = (setupServer list).1 ↔ NoneHidden list)) :=
  ⟨getListener_first _ _ list, getListener_first _ _ list, getListenerSocket_alike_iff⟩

/-- The second of two addresses is hidden by the first. -/
theorem listener_sockets_two :
    (PollServer.getListenerSocket [(⟨1, some 3, true, false, true⟩ : ServAddr Nat), ⟨2, some 4, true, true, true⟩]).1 ≠
      (setupServer [⟨1, some 3, true, false, true⟩, ⟨2, some 4, true, true, true⟩]).1 := by
  have iff := (listener_sockets [(⟨1, some 3, true, false, true⟩ : ServAddr Nat), ⟨2, some 4, true, true, true⟩]).2.2
    (List.cons_ne_nil _ _)
  rw [Ne, iff]
  intro hidden
  exact hidden _ rfl rfl ⟨2, some 4, true, true, true⟩ (by simp) rfl

end SocketPrograms.Setup
