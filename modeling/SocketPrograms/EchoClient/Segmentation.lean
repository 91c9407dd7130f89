import SocketPrograms.EchoClient.Receive

/-! What the echo clients print of a stream in different segmentations. They ask for a full
buffer and print each chunk as a string of its own, so bytes behind the echo and bytes behind
a NUL come out or not as the segmentation falls. -/

namespace SocketPrograms.EchoClient
open Lib CString

structure Segments (stream : Bytes) (chunks : List Bytes) : Prop where
  whole : chunks.flatten = stream
  sized : ∀ chunk ∈ chunks, chunk ≠ [] ∧ chunk.length ≤ BUF_SIZE - 1

def Client.Independent (client : Client) (echoStr : Bytes) (numBytes : Int) (stream : Bytes) : Prop :=
  ∀ chunks chunks', Segments stream chunks → Segments stream chunks' →
    client.main echoStr numBytes (chunks.map some) = client.main echoStr numBytes (chunks'.map some)

def Client.PrintsAlike (client : Client) (echoStr : Bytes) (numBytes : Int) (stream : Bytes) : Prop :=
  ∀ chunks chunks', Segments stream chunks → Segments stream chunks' →
    (client.main echoStr numBytes (chunks.map some)).stdout = (client.main echoStr numBytes (chunks'.map some)).stdout

/-- The text at the start of the stream is no longer than the echo string, and up to the length
of the echo string nothing but NULs is behind it. -/
def Settled (len : Nat) (stream : Bytes) : Prop :=
  len = 0 ∨ (cString stream).length ≤ len ∧ ∀ b ∈ (stream.take len).drop (cString stream).length, b = NUL

theorem cString_take (stream : Bytes) (n : Nat) : cString (stream.take n) = (cString stream).take n :=
  List.take_takeWhile.symm

theorem cString_drop {stream : Bytes} {x : Nat} (inside : x ≤ (cString stream).length) :
    cString (stream.drop x) = (cString stream).drop x := by
  induction x generalizing stream with
  | zero => rfl
  | succ x ih =>
    cases stream with
    | nil => rfl
    | cons b stream =>
      by_cases nul : b = NUL
      · simp [cString, nul] at inside
      · have ahead : cString (b :: stream) = b :: cString stream := by simp [cString, nul]
        rw [ahead, List.length_cons] at inside
        rw [ahead, List.drop_succ_cons, List.drop_succ_cons]
        exact ih (by omega)

theorem length_cString_le (stream : Bytes) : (cString stream).length ≤ stream.length :=
  (List.takeWhile_prefix _).length_le

theorem ipv4Tcp_tally (total : Nat) : ipv4Tcp.tally total = total := rfl

theorem receiveLoop_chunk (client : Client) {len total : Nat} {chunk : Bytes} (more : total < len)
    (nonempty : chunk ≠ []) (results : List (Option Bytes)) :
    client.receiveLoop len total (some chunk :: results) =
      ⟨cString chunk ++ (client.receiveLoop len (client.tally (total + chunk.length)) results).stdout,
        (client.receiveLoop len (client.tally (total + chunk.length)) results).status⟩ := by
  obtain ⟨b, bytes, rfl⟩ := List.exists_cons_of_ne_nil nonempty
  rw [Client.receiveLoop, if_pos more]
  simp only [cString_closed]

theorem receiveLoop_done (client : Client) {len total : Nat} (enough : len ≤ total)
    (results : List (Option Bytes)) :
    client.receiveLoop len total results = ⟨[LF], EXIT_SUCCESS⟩ := by
  unfold Client.receiveLoop
  split
  · rw [if_neg (Nat.not_lt.mpr enough)]
  · rw [if_neg (Nat.not_lt.mpr enough)]

theorem cString_chunk {len : Nat} {stream chunk behind : Bytes}
    (nuls : ∀ b ∈ (stream.take len).drop (cString stream).length, b = NUL) {x : Nat} (more : x < len)
    (nonempty : chunk ≠ []) (here : chunk ++ behind = stream.drop x) :
    cString chunk ++ (cString stream).drop (x + chunk.length) = (cString stream).drop x := by
  by_cases inside : x ≤ (cString stream).length
  · have front : chunk = (stream.drop x).take chunk.length := by rw [← here, List.take_left]
    have printed : cString chunk = ((cString stream).drop x).take chunk.length := by
      conv_lhs => rw [front]
      rw [cString_take, cString_drop inside]
    rw [printed, ← List.drop_drop, List.take_append_drop]
  · obtain ⟨b, bytes, rfl⟩ := List.exists_cons_of_ne_nil nonempty
    have byte : stream[x]? = some b := by
      have head := congrArg List.head? here
      simpa [List.head?_drop] using head.symm
    have nul : b = NUL := by
      apply nuls b
      apply List.mem_of_getElem? (i := x - (cString stream).length)
      rw [List.getElem?_drop, List.getElem?_take_of_lt (by omega), ← byte]
      congr 1
      omega
    have silent : cString (b :: bytes) = [] := by simp [cString, nul]
    rw [silent, List.nil_append, List.drop_eq_nil_of_le (by omega), List.drop_eq_nil_of_le (by omega)]

def settledFrom (len : Nat) (stream : Bytes) (x : Nat) : Outcome :=
  if stream.length < len then ⟨(cString stream).drop x, EXIT_FAILURE⟩
  else ⟨(cString stream).drop x ++ [LF], EXIT_SUCCESS⟩

theorem settledFrom_cons {len : Nat} {stream : Bytes} {x y : Nat} {printed : Bytes}
    (front : printed ++ (cString stream).drop y = (cString stream).drop x) :
    (⟨printed ++ (settledFrom len stream y).stdout, (settledFrom len stream y).status⟩ : Outcome) =
      settledFrom len stream x := by
  unfold settledFrom
  split_ifs
  · rw [front]
  · rw [← List.append_assoc, front]

/-- Behind the text only NULs come up to the length of the echo string; the induction is on the
chunks from position `x` on. -/
theorem receiveLoop_settled {len : Nat} {stream : Bytes} (text : (cString stream).length ≤ len)
    (nuls : ∀ b ∈ (stream.take len).drop (cString stream).length, b = NUL) {chunks : List Bytes}
    (nonempty : ∀ chunk ∈ chunks, chunk ≠ []) {x : Nat} (inside : x ≤ stream.length)
    (rest : chunks.flatten = stream.drop x) :
    ipv4Tcp.receiveLoop len x (chunks.map some) = settledFrom len stream x := by
  have short := length_cString_le stream
  induction chunks generalizing x with
  | nil =>
    have size := congrArg List.length rest
    rw [List.flatten_nil, List.length_nil, List.length_drop] at size
    have passed : (cString stream).drop x = [] := List.drop_eq_nil_of_le (by omega)
    have ended : stream.length = x := by omega
    simp [Client.receiveLoop, settledFrom, passed, ended]
  | cons chunk chunks ih =>
    by_cases enough : len ≤ x
    · have passed : (cString stream).drop x = [] := List.drop_eq_nil_of_le (by omega)
      rw [receiveLoop_done _ enough, settledFrom, if_neg (by omega), passed, List.nil_append]
    rw [List.flatten_cons] at rest
    have here := nonempty chunk List.mem_cons_self
    have size := congrArg List.length rest
    rw [List.length_append, List.length_drop] at size
    have behind : chunks.flatten = stream.drop (x + chunk.length) := by
      rw [← List.drop_drop, ← rest, List.drop_left]
    have later := ih (fun c member => nonempty c (List.mem_cons_of_mem chunk member)) (by omega) behind
    rw [List.map_cons, receiveLoop_chunk _ (Nat.not_le.mp enough) here, ipv4Tcp_tally, later]
    exact settledFrom_cons (cString_chunk nuls (Nat.not_le.mp enough) here rest)

/-! ### Streams that are not settled -/

def singles (stream : Bytes) : List Bytes := stream.map fun b => [b]

theorem Segments.append {first second : Bytes} {chunks chunks' : List Bytes} (one : Segments first chunks)
    (two : Segments second chunks') : Segments (first ++ second) (chunks ++ chunks') := by
  constructor
  · rw [List.flatten_append, one.whole, two.whole]
  · intro chunk member
    rcases List.mem_append.mp member with front | back
    · exact one.sized chunk front
    · exact two.sized chunk back

theorem segments_single {chunk : Bytes} (nonempty : chunk ≠ []) (small : chunk.length ≤ BUF_SIZE - 1) :
    Segments chunk [chunk] :=
  ⟨List.flatten_singleton, fun _ member => List.mem_singleton.mp member ▸ ⟨nonempty, small⟩⟩

theorem segments_singles (stream : Bytes) : Segments stream (singles stream) := by
  induction stream with
  | nil => exact ⟨rfl, by simp [singles]⟩
  | cons b stream ih => exact (segments_single (List.cons_ne_nil b []) (by simp [BUF_SIZE])).append ih

theorem receiveLoop_front {len : Nat} {u : Bytes} {total : Nat} (inside : total + u.length ≤ len) :
    ∃ printed, ∀ results, ipv4Tcp.receiveLoop len total ((singles u).map some ++ results) =
      ⟨printed ++ (ipv4Tcp.receiveLoop len (total + u.length) results).stdout,
        (ipv4Tcp.receiveLoop len (total + u.length) results).status⟩ := by
  induction u generalizing total with
  | nil => exact ⟨[], fun results => rfl⟩
  | cons b u ih =>
    rw [List.length_cons] at inside
    obtain ⟨printed, same⟩ := ih (show total + 1 + u.length ≤ len by omega)
    have count : total + 1 + u.length = total + (b :: u).length := by
      rw [List.length_cons]
      omega
    refine ⟨cString [b] ++ printed, fun results => ?_⟩
    have shift : (singles (b :: u)).map some ++ results = some [b] :: ((singles u).map some ++ results) := rfl
    rw [shift, receiveLoop_chunk _ (by omega) (List.cons_ne_nil b []), ipv4Tcp_tally, List.length_singleton, same,
      count, List.append_assoc]

theorem nul_then_other {w : Bytes} (other : ∃ b ∈ w, b ≠ NUL) :
    ∃ u b v, NUL :: w = u ++ NUL :: b :: v ∧ b ≠ NUL := by
  induction w with
  | nil =>
    obtain ⟨b, member, -⟩ := other
    exact absurd member List.not_mem_nil
  | cons b w ih =>
    by_cases nul : b = NUL
    · subst nul
      have later : ∃ b ∈ w, b ≠ NUL := by
        obtain ⟨b, member, different⟩ := other
        rcases List.mem_cons.mp member with same | behind
        · exact absurd same different
        · exact ⟨b, behind, different⟩
      obtain ⟨u, b, v, split, different⟩ := ih later
      exact ⟨NUL :: u, b, v, by rw [split, List.cons_append], different⟩
    · exact ⟨[], b, w, rfl, nul⟩

theorem cString_split (stream : Bytes) :
    stream = cString stream ∨ ∃ w, stream = cString stream ++ NUL :: w := by
  by_cases nul : NUL ∈ stream
  · obtain ⟨front, rest, split, clean⟩ := List.eq_append_cons_of_mem nul
    right
    exact ⟨rest, by rw [split, cString_append_nul clean]⟩
  · exact Or.inl (cString_of_clean nul).symm

theorem across {text : Bytes} {len : Nat} (positive : 0 < len) (long : len < text.length) :
    ∃ u a b v, text = u ++ a :: b :: v ∧ u.length + 1 = len := by
  have first : len - 1 < text.length := by omega
  have second : len - 1 + 1 < text.length := by omega
  have cut := List.take_append_drop (len - 1) text
  rw [List.drop_eq_getElem_cons first, List.drop_eq_getElem_cons second] at cut
  refine ⟨_, _, _, _, cut.symm, ?_⟩
  rw [List.length_take]
  omega

theorem unsettled_text {len : Nat} {stream : Bytes} (positive : 0 < len) (long : len < (cString stream).length) :
    ∃ u a b v, stream = u ++ a :: b :: v ∧ b ≠ NUL ∧ a ≠ NUL ∧ u.length + 1 = len := by
  obtain ⟨tail, split⟩ : cString stream <+: stream := List.takeWhile_prefix _
  obtain ⟨u, a, b, v, text, count⟩ := across positive long
  have clean {c : UInt8} (member : c ∈ cString stream) : c ≠ NUL := by
    simpa using List.mem_takeWhile_imp member
  have before : a ≠ NUL := clean (by simp [text])
  have after : b ≠ NUL := clean (by simp [text])
  refine ⟨u, a, b, v ++ tail, ?_, after, before, count⟩
  rw [← split, text, List.append_assoc]
  rfl

theorem unsettled_behind {len : Nat} {stream : Bytes} {b : UInt8}
    (member : b ∈ (stream.take len).drop (cString stream).length) (different : b ≠ NUL) :
    ∃ u c v, stream = u ++ NUL :: c :: v ∧ c ≠ NUL ∧ u.length + 1 < len := by
  rcases cString_split stream with all | ⟨w, split⟩
  · have nothing : (stream.take len).drop (cString stream).length = [] := by
      rw [← all]
      exact List.drop_eq_nil_of_le (List.length_take_le' len stream)
    rw [nothing] at member
    exact absurd member List.not_mem_nil
  generalize cString stream = text at split member
  subst split
  rw [List.drop_take, List.drop_left] at member
  obtain ⟨n, count⟩ : ∃ n, len - text.length = n + 1 := by
    cases gap : len - text.length with
    | zero => simp [gap] at member
    | succ n => exact ⟨n, rfl⟩
  rw [count, List.take_succ_cons] at member
  have later : ∃ c ∈ w.take n, c ≠ NUL := by
    rcases List.mem_cons.mp member with nul | behind
    · exact absurd nul different
    · exact ⟨b, behind, different⟩
  obtain ⟨u, c, v, cut, apart⟩ := nul_then_other later
  have sizes := congrArg List.length cut
  simp only [List.length_cons, List.length_append, List.length_take] at sizes
  refine ⟨text ++ u, c, v ++ w.drop n, ?_, apart, ?_⟩
  · have whole : NUL :: w = NUL :: w.take n ++ w.drop n := by rw [List.cons_append, List.take_append_drop]
    rw [whole, cut]
    simp
  · rw [List.length_append]
    omega

/-- A stream that is not settled has two neighbours that show it: a NUL in front of another byte
inside the length of the echo string, or two other bytes across its end. -/
theorem unsettled {len : Nat} {stream : Bytes} (loose : ¬ Settled len stream) :
    ∃ u a b v, stream = u ++ a :: b :: v ∧ b ≠ NUL ∧
      (a = NUL ∧ u.length + 1 < len ∨ a ≠ NUL ∧ u.length + 1 = len) := by
  rw [Settled, not_or, not_and_or, Nat.not_le] at loose
  obtain ⟨positive, long | other⟩ := loose
  · obtain ⟨u, a, b, v, split, after, across⟩ := unsettled_text (Nat.pos_of_ne_zero positive) long
    exact ⟨u, a, b, v, split, after, Or.inr across⟩
  · simp only [not_forall] at other
    obtain ⟨b, member, different⟩ := other
    obtain ⟨u, c, v, split, after, inside⟩ := unsettled_behind member different
    exact ⟨u, NUL, c, v, split, after, Or.inl ⟨rfl, inside⟩⟩

theorem pair_differs {len total : Nat} {a b : UInt8} (other : b ≠ NUL)
    (loose : a = NUL ∧ total + 1 < len ∨ a ≠ NUL ∧ total + 1 = len) (results : List (Option Bytes)) :
    (ipv4Tcp.receiveLoop len total (some [a] :: some [b] :: results)).stdout ≠
      (ipv4Tcp.receiveLoop len total (some [a, b] :: results)).stdout := by
  have more : total < len := by omega
  have shown : cString [b] = [b] := by simp [cString, other]
  rw [receiveLoop_chunk _ more (List.cons_ne_nil a []), receiveLoop_chunk _ more (List.cons_ne_nil a [b])]
  simp only [ipv4Tcp_tally, List.length_cons, List.length_nil, Nat.zero_add]
  intro same
  have sizes := congrArg List.length same
  rcases loose with ⟨nul, inside⟩ | ⟨before, last⟩
  · have silent : cString [a] = [] ∧ cString [a, b] = [] := by simp [cString, nul]
    rw [receiveLoop_chunk _ inside (List.cons_ne_nil b []), ipv4Tcp_tally] at sizes
    simp only [silent.1, silent.2, shown, List.nil_append, List.length_append, List.length_singleton,
      Nat.add_assoc] at sizes
    omega
  · have printed : cString [a] = [a] ∧ cString [a, b] = [a, b] := by simp [cString, before, other]
    rw [receiveLoop_done _ (by omega), receiveLoop_done _ (by omega), printed.1, printed.2] at sizes
    simp at sizes

theorem receiveLoop_differs {len : Nat} {u v : Bytes} {a b : UInt8} (other : b ≠ NUL)
    (loose : a = NUL ∧ u.length + 1 < len ∨ a ≠ NUL ∧ u.length + 1 = len) :
    (ipv4Tcp.receiveLoop len 0 ((singles (u ++ a :: b :: v)).map some)).stdout ≠
      (ipv4Tcp.receiveLoop len 0 ((singles u ++ ([[a, b]] ++ singles v)).map some)).stdout := by
  obtain ⟨printed, front⟩ := receiveLoop_front (show 0 + u.length ≤ len by omega)
  have apart : (singles (u ++ a :: b :: v)).map some =
      (singles u).map some ++ some [a] :: some [b] :: (singles v).map some := by simp [singles]
  have paired : (singles u ++ ([[a, b]] ++ singles v)).map some =
      (singles u).map some ++ some [a, b] :: (singles v).map some := by simp
  rw [Nat.zero_add] at front
  intro same
  rw [apart, paired, front, front] at same
  exact pair_differs other loose _ (List.append_cancel_left same)

/-! ### The tally -/

def Small (len : Nat) (stream : Bytes) : Prop := stream.length < 2 ^ 32 ∨ len + (BUF_SIZE - 2) < 2 ^ 32

theorem receiveLoop_tally {len total : Nat} {chunks : List Bytes}
    (sized : ∀ chunk ∈ chunks, chunk ≠ [] ∧ chunk.length ≤ BUF_SIZE - 1)
    (small : total + chunks.flatten.length < 2 ^ 32 ∨ len + (BUF_SIZE - 2) < 2 ^ 32) :
    tcpEchoClient.receiveLoop len total (chunks.map some) = ipv4Tcp.receiveLoop len total (chunks.map some) := by
  induction chunks generalizing total with
  | nil => rfl
  | cons chunk chunks ih =>
    by_cases enough : len ≤ total
    · rw [receiveLoop_done _ enough, receiveLoop_done _ enough]
    obtain ⟨nonempty, bound⟩ := sized chunk List.mem_cons_self
    have buffer : BUF_SIZE = 100 := rfl
    rw [List.flatten_cons, List.length_append] at small
    have tally : tcpEchoClient.tally (total + chunk.length) = total + chunk.length := Nat.mod_eq_of_lt (by omega)
    have further : total + chunk.length + chunks.flatten.length < 2 ^ 32 ∨ len + (BUF_SIZE - 2) < 2 ^ 32 := by
      omega
    have later := ih (fun c member => sized c (List.mem_cons_of_mem chunk member)) further
    rw [List.map_cons, receiveLoop_chunk _ (Nat.not_le.mp enough) nonempty,
      receiveLoop_chunk _ (Nat.not_le.mp enough) nonempty, tally, ipv4Tcp_tally, later]

theorem loop_settled {len : Nat} {stream : Bytes} (settled : Settled len stream) {chunks chunks' : List Bytes}
    (one : Segments stream chunks) (two : Segments stream chunks') :
    ipv4Tcp.receiveLoop len 0 (chunks.map some) = ipv4Tcp.receiveLoop len 0 (chunks'.map some) := by
  rcases settled with rfl | ⟨text, nuls⟩
  · rw [receiveLoop_done _ (Nat.zero_le _), receiveLoop_done _ (Nat.zero_le _)]
  · rw [receiveLoop_settled text nuls (fun c member => (one.sized c member).1) (Nat.zero_le _) one.whole,
      receiveLoop_settled text nuls (fun c member => (two.sized c member).1) (Nat.zero_le _) two.whole]

theorem loop_loose {len : Nat} {stream : Bytes} (loose : ¬ Settled len stream) :
    ∃ chunks chunks', Segments stream chunks ∧ Segments stream chunks' ∧
      (ipv4Tcp.receiveLoop len 0 (chunks.map some)).stdout ≠
        (ipv4Tcp.receiveLoop len 0 (chunks'.map some)).stdout := by
  obtain ⟨u, a, b, v, rfl, other, pair⟩ := unsettled loose
  have two : Segments [a, b] [[a, b]] := segments_single (List.cons_ne_nil a [b]) (by simp [BUF_SIZE])
  have paired := (segments_singles u).append (two.append (segments_singles v))
  exact ⟨_, _, segments_singles _, paired, receiveLoop_differs other pair⟩

theorem main_independent_iff {client : Client} {echoStr stream : Bytes} (numBytes : Int)
    (same : ∀ chunks, Segments stream chunks →
      client.receiveLoop echoStr.length 0 (chunks.map some) =
        ipv4Tcp.receiveLoop echoStr.length 0 (chunks.map some)) :
    (client.Independent echoStr numBytes stream ↔ numBytes ≠ echoStr.length ∨ Settled echoStr.length stream) ∧
      (client.PrintsAlike echoStr numBytes stream ↔ numBytes ≠ echoStr.length ∨ Settled echoStr.length stream) := by
  have prints (independent : client.Independent echoStr numBytes stream) :
      client.PrintsAlike echoStr numBytes stream :=
    fun chunks chunks' one two => congrArg Outcome.stdout (independent chunks chunks' one two)
  have enough (settled : numBytes ≠ echoStr.length ∨ Settled echoStr.length stream) :
      client.Independent echoStr numBytes stream := by
    intro chunks chunks' one two
    rcases settled with failed | settled
    · simp only [Client.main, if_pos failed]
    · simp only [Client.main, same chunks one, same chunks' two, loop_settled settled one two]
  have needed (alike : client.PrintsAlike echoStr numBytes stream) :
      numBytes ≠ echoStr.length ∨ Settled echoStr.length stream := by
    by_contra neither
    rw [not_or, not_not] at neither
    obtain ⟨sent, loose⟩ := neither
    obtain ⟨chunks, chunks', one, two, differ⟩ := loop_loose loose
    have whole : ¬ numBytes < 0 := by omega
    have printed := alike chunks chunks' one two
    simp only [Client.main, if_neg whole, if_neg (not_not.mpr sent), same chunks one, same chunks' two,
      List.append_cancel_left_eq] at printed
    exact differ printed
  exact ⟨⟨fun independent => needed (prints independent), enough⟩,
    ⟨needed, fun settled => prints (enough settled)⟩⟩

/-- Both clients are independent of the segmentation exactly for settled streams, or when they
end at `send`; for other streams already what they print is not. The tally of the first must not
wrap around. -/
theorem independent_iff (echoStr stream : Bytes) (numBytes : Int) :
    (Small echoStr.length stream →
      (tcpEchoClient.Independent echoStr numBytes stream ↔
        numBytes ≠ echoStr.length ∨ Settled echoStr.length stream) ∧
      (tcpEchoClient.PrintsAlike echoStr numBytes stream ↔
        numBytes ≠ echoStr.length ∨ Settled echoStr.length stream)) ∧
    (ipv4Tcp.Independent echoStr numBytes stream ↔
      numBytes ≠ echoStr.length ∨ Settled echoStr.length stream) ∧
    (ipv4Tcp.PrintsAlike echoStr numBytes stream ↔
      numBytes ≠ echoStr.length ∨ Settled echoStr.length stream) := by
  constructor
  · intro small
    apply main_independent_iff numBytes
    intro chunks one
    apply receiveLoop_tally one.sized
    rwa [one.whole, Nat.zero_add]
  · exact main_independent_iff numBytes fun _ _ => rfl

theorem independent_echo :
    tcpEchoClient.Independent [104, 105] 2 [104, 105] ∧ ipv4Tcp.Independent [104, 105] 2 [104, 105] := by
  have iffs := independent_iff [104, 105] [104, 105] 2
  have small : Small 2 [104, 105] := Or.inl (by decide)
  have text : cString [104, 105] = [104, 105] := by decide
  have settled : Settled 2 [104, 105] := Or.inr (by simp [text])
  exact ⟨(iffs.1 small).1.mpr (Or.inr settled), iffs.2.1.mpr (Or.inr settled)⟩

/-- One byte more than the echo, alone or together with it. -/
theorem surplus_printed :
    ¬ tcpEchoClient.Independent [104, 105] 2 [104, 105, 33] ∧
      ¬ ipv4Tcp.Independent [104, 105] 2 [104, 105, 33] := by
  have apart : Segments [104, 105, 33] [[104, 105], [33]] := ⟨rfl, by decide⟩
  have whole : Segments [104, 105, 33] [[104, 105, 33]] := ⟨rfl, by decide⟩
  constructor
  · intro independent
    exact absurd (independent _ _ apart whole) (by decide)
  · intro independent
    exact absurd (independent _ _ apart whole) (by decide)

end SocketPrograms.EchoClient
