import SocketPrograms.Select.Readiness
import SocketPrograms.Setup.Descriptors

/-! The select server from the results of `SetupServer` on: which descriptors it works with. -/

namespace SocketPrograms.Select
open Lib Setup

/-- `main` as far as the loop, with the results of `SetupServer` for the ports. Without a port
it exits. -/
def start (ports : List (Option Nat)) : State := if ports = [] then .exited else .running

def sockets (ports : List (Option Nat)) : List Int := ports.map asInt

def Call.InRange (maxDesc : Int) : Call → Prop
  | .fdSet fd | .fdIsSet fd => fd = STDIN_FILENO ∨ 0 ≤ fd ∧ fd ≤ maxDesc
  | .accept fd _ | .close fd => 0 ≤ fd ∧ fd ≤ maxDesc
  | .select nfds _ _ => STDIN_FILENO ≤ maxDesc ∧ maxDesc < nfds
  | _ => True

def AllInRange (ports : List (Option Nat)) (inputs : List Answers) : Prop :=
  ∀ call ∈ ((server (sockets ports)).run inputs (start ports)).2, call.InRange (maxDesc (sockets ports))

theorem maxDesc_from (sockets : List Int) (init : Int) :
    init ≤ sockets.foldl (fun maxDesc sock => if maxDesc < sock then sock else maxDesc) init ∧
      ∀ fd ∈ sockets, fd ≤ sockets.foldl (fun maxDesc sock => if maxDesc < sock then sock else maxDesc) init := by
  induction sockets generalizing init with
  | nil => simp
  | cons sock rest ih =>
    obtain ⟨first, others⟩ := ih (if init < sock then sock else init)
    have step : init ≤ (if init < sock then sock else init) ∧ sock ≤ (if init < sock then sock else init) := by
      split_ifs <;> omega
    rw [List.foldl_cons]
    refine ⟨Int.le_trans step.1 first, fun fd member => ?_⟩
    rcases List.mem_cons.mp member with rfl | later
    · exact Int.le_trans step.2 first
    · exact others fd later

theorem le_maxDesc {sockets : List Int} {fd : Int} (member : fd ∈ sockets) : fd ≤ maxDesc sockets :=
  (maxDesc_from sockets (-1)).2 fd member

theorem fdSets_inRange {bound : Int} (sockSet : List Int) {fds : List Int}
    (inside : ∀ fd ∈ fds, fd = STDIN_FILENO ∨ 0 ≤ fd ∧ fd ≤ bound) :
    ∀ call ∈ (fdSets sockSet fds).2, call.InRange bound := by
  intro call member
  obtain ⟨fd, here, rfl⟩ := fdSets_calls sockSet fds call member
  exact inside fd here

theorem fdSet_called {fd : Int} (sockSet : List Int) {fds : List Int} (member : fd ∈ fds) :
    .fdSet fd ∈ (fdSets sockSet fds).2 := by
  induction fds generalizing sockSet with
  | nil => cases member
  | cons first rest ih =>
    rw [fdSets]
    rcases List.mem_cons.mp member with rfl | later
    · exact List.mem_cons_self
    · exact List.mem_cons_of_mem _ (ih _ later)

theorem Acts.inRange {sockets sockSet : List Int} {call : Call} (acts : Acts sockets sockSet call)
    (valid : ∀ sock ∈ sockets, 0 ≤ sock) : call.InRange (maxDesc sockets) := by
  cases acts with
  | fdIsSet watched =>
    rcases List.mem_cons.mp watched with same | member
    · exact Or.inl same
    · exact Or.inr ⟨valid _ member, le_maxDesc member⟩
  | accept result watched => exact ⟨valid _ watched, le_maxDesc watched⟩
  | getchar | recv | send => trivial

theorem sockets_nonneg {ports : List (Option Nat)} (setUp : none ∉ ports) : ∀ sock ∈ sockets ports, 0 ≤ sock := by
  intro sock member
  obtain ⟨port, inside, rfl⟩ := List.mem_map.mp member
  cases port with
  | none => exact absurd inside setUp
  | some fd => exact Int.natCast_nonneg fd

theorem turn_inRange {ports : List (Option Nat)} (nonempty : ports ≠ []) (ans : Answers) :
    (∀ call ∈ (turn (sockets ports) ans).2, call.InRange (maxDesc (sockets ports))) ↔ none ∉ ports := by
  constructor
  · intro all failed
    have inside : (-1 : Int) ∈ STDIN_FILENO :: sockets ports :=
      List.mem_cons_of_mem _ (List.mem_map.mpr ⟨none, failed, rfl⟩)
    have called : .fdSet (-1) ∈ (turn (sockets ports) ans).2 := by
      rw [turn_calls]
      exact List.mem_append_left _ (fdSet_called [] inside)
    rcases all _ called with stdin | range
    · exact absurd stdin (by decide)
    · omega
  · intro setUp
    have valid := sockets_nonneg setUp
    obtain ⟨port, rest, rfl⟩ := List.exists_cons_of_ne_nil nonempty
    have first : asInt port ∈ sockets (port :: rest) := List.mem_cons_self
    have upper : STDIN_FILENO ≤ maxDesc (sockets (port :: rest)) := Int.le_trans (valid _ first) (le_maxDesc first)
    rw [turn_calls, List.forall_mem_append, List.forall_mem_cons]
    refine ⟨fdSets_inRange [] fun fd member => ?_, ⟨upper, Int.lt_succ _⟩, fun call member => ?_⟩
    · rcases List.mem_cons.mp member with same | inside
      · exact Or.inl same
      · exact Or.inr ⟨valid fd inside, le_maxDesc inside⟩
    · exact (behindSelect_acts _ ans call member).inRange valid

theorem run_halted {s : State} (halted : s = .returned ∨ s = .exited) (sockets : List Int)
    (inputs : List Answers) : (server sockets).run inputs s = (s, []) := by
  induction inputs with
  | nil => rfl
  | cons ans inputs ih =>
    have step : (server sockets).step ans s = (s, []) := by rcases halted with rfl | rfl <;> rfl
    rw [Machine.run_cons, step, ih]
    rfl

theorem run_inRange {ports : List (Option Nat)} (setUp : none ∉ ports) (nonempty : ports ≠ [])
    (inputs : List Answers) :
    ∀ call ∈ ((server (sockets ports)).run inputs .running).2, call.InRange (maxDesc (sockets ports)) := by
  have valid := sockets_nonneg setUp
  have kept := @Machine.invariant_all _ _ _ (server (sockets ports))
    (fun past _ => ∀ call ∈ past, call.InRange (maxDesc (sockets ports))) ?_ inputs [] .running (by simp)
  · exact kept
  intro past s ans before
  rw [List.forall_mem_append]
  refine ⟨before, ?_⟩
  cases s with
  | running => exact (turn_inRange nonempty ans).mpr setUp
  | stopping =>
    intro call member
    obtain ⟨sock, inside, rfl⟩ := List.mem_map.mp member
    exact ⟨valid sock inside, le_maxDesc inside⟩
  | returned | exited => exact fun call member => absurd member List.not_mem_nil

/-- All descriptors in use are in the range of `select` when every port was set up: nothing keeps
the -1 of another out of the sets. -/
theorem allInRange_iff (ports : List (Option Nat)) (inputs : List Answers) :
    AllInRange ports inputs ↔ inputs = [] ∨ none ∉ ports := by
  by_cases nonempty : ports = []
  · subst nonempty
    have none := run_halted (Or.inr rfl : State.exited = .returned ∨ State.exited = .exited) (sockets []) inputs
    have exits : start [] = .exited := rfl
    apply iff_of_true _ (Or.inr List.not_mem_nil)
    rw [AllInRange, exits, none]
    exact fun call member => absurd member List.not_mem_nil
  have running : start ports = .running := if_neg nonempty
  cases inputs with
  | nil => exact iff_of_true (fun call member => absurd member List.not_mem_nil) (Or.inl rfl)
  | cons ans inputs =>
    rw [or_iff_right (List.cons_ne_nil ans inputs), AllInRange, running]
    constructor
    · intro all
      apply (turn_inRange nonempty ans).mp
      intro call member
      rw [Machine.run_cons] at all
      exact all call (List.mem_append_left _ member)
    · intro setUp
      exact run_inRange setUp nonempty (ans :: inputs)

/-- Two ports, of which the second cannot be set up. -/
theorem failed_setup_used :
    ¬ AllInRange [some 3, none] [⟨some [], fun _ => 4, fun _ => [], fun _ => false⟩] := by
  have called : .fdSet (-1) ∈
      ((server (sockets [some 3, none])).run [⟨some [], fun _ => 4, fun _ => [], fun _ => false⟩]
        (start [some 3, none])).2 := by decide
  intro all
  rcases all _ called with stdin | range
  · exact absurd stdin (by decide)
  · omega

end SocketPrograms.Select
