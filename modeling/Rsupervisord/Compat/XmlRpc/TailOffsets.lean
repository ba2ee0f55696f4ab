import Rsupervisord.Cli.Commands
import Rsupervisord.Logging.LogSource
import Rsupervisord.Program.Logs
import Rsupervisord.Support.TransitionSystem

/-!
# Offsets in tail replies

A client of the XML-RPC interface reads a growing log by tails. The offset in a reply has 32 bits;
the client passes it back with the next request.

* `SupervisorRpc.tailProcessLog`, `SupervisorRpc.tailMainLog`: the requests.
* `TailClient.system`: a client beside a log.

## Main results

* `TailClient.reply_of_store`: the client sees the logs of a program as the manager reads them.
* `TailClient.offsetsSurvive`: the offsets of a run in which every position has 31 bits.
-/

namespace Rsupervisord

/-- `u64_to_i32`: a saturating conversion. -/
def u64ToI32 (v : ℕ) : Int32 := if v > 2 ^ 31 - 1 then Int32.maxValue else .ofNat v

namespace XmlRpc

/-- `as_i64`; `truncate` is the conversion of a double. -/
def Value.asI64 (truncate : UInt64 → Int64) : Value → Option Int64
  | .int i => some i.toInt64
  | .double bits => some (truncate bits)
  | .string s => Cli.parseI64 s
  | _ => none

end XmlRpc

open XmlRpc

namespace SupervisorRpc

/-- `get_str_param`. -/
def getStrParam (params : List Value) (index : ℕ) (errMsg : String) : Except Fault String :=
  match params[index]? with
  | some (.string s) => .ok s
  | _ => .error (.incorrectParams errMsg)

/-- Offset and length of a tail request. -/
def tailArgs (truncate : UInt64 → Int64) (offset length : Option Value) : Int64 × Int64 :=
  ((offset.bind (Value.asI64 truncate)).getD 0, (length.bind (Value.asI64 truncate)).getD 4096)

/-- The reply to a tail request, from what the manager returns for an offset and a length. -/
def tailReply (truncate : UInt64 → Int64)
    (tail : Int64 → Int64 → Except Fault (String × Int64 × Bool)) (offset length : Option Value) :
    Except Fault Value := do
  let (offset, length) := tailArgs truncate offset length
  let (data, newOff, overflow) ← tail offset length
  return Rsupervisord.tailProcessLog data newOff overflow

/-- `tail_process_log`. -/
def tailProcessLog (truncate : UInt64 → Int64)
    (tailLog : String → LogChannel → Int64 → Int64 → Except Fault (String × Int64 × Bool))
    (params : List Value) (channel : LogChannel) : Except Fault Value := do
  let name ← getStrParam params 0 "tailProcessLog requires name parameter"
  tailReply truncate (tailLog name channel) params[1]? params[2]?

/-- `supervisor.tailMainLog`. -/
def tailMainLog (truncate : UInt64 → Int64)
    (tailMainLog : Int64 → Int64 → Except Fault (String × Int64 × Bool)) (params : List Value) :
    Except Fault Value :=
  tailReply truncate tailMainLog params[0]? params[1]?

end SupervisorRpc

/-! ## The logs that are read -/

/-- What a store of a program is read from. -/
def LogStorage.source (st : LogStorage) : Option LogStore → LogSource
  | some (.file path) => .file (st.files path)
  | some (.memory channel) => .memory (st.inMemoryRotator.channel channel).ring
  | none => .file none

/-- What the manager returns for a store of a program. -/
def LogStorage.tailText (st : LogStorage) (store : Option LogStore) (offset length : Int64) :
    String × Int64 × Bool :=
  let (data, newOffset, overflow) := st.tailStore store offset.toInt length.toInt
  (data, .ofInt newOffset, overflow)

namespace LogSource

/-- What the manager returns for a source. -/
def tailText (source : LogSource) (offset length : Int64) : String × Int64 × Bool :=
  let (bytes, newOffset, overflow) := source.tail offset.toInt length.toInt
  (Text.fromUtf8Lossy bytes, .ofInt newOffset, overflow)

/-- Below `2 ^ 63` bytes the tail of a store is the one in machine arithmetic. -/
theorem tailStore_eq {st : LogStorage} {store : Option LogStore}
    (holdest : (st.source store).oldest ≤ (st.source store).size)
    (hsize : (st.source store).size < 2 ^ 63) (offset length : ℤ) :
    st.tailStore store offset length =
      (Text.fromUtf8Lossy ((st.source store).tail offset length).1,
        ((st.source store).tail offset length).2) := by
  obtain _ | path | channel := store
  · rfl
  · rw [LogStorage.tailStore, LogFileReader.tailBytes]
    rw [LogStorage.source] at hsize ⊢
    generalize st.files path = contents at *
    obtain _ | bytes := contents
    · rfl
    · have hcast : asI64 bytes.length = bytes.length :=
        asI64_of_lt (Int.natCast_nonneg _) (Int.ofNat_lt.mpr hsize)
      simp only [tail, LogFileReader.tailSelectionI64, hcast]
  · rw [LogStorage.source, tail, ContinuousRingBuffer.tailSelectionI64_eq holdest hsize]
    exact ContinuousRingBuffer.tailBytes_eq _ offset length

/-- What the manager returns for a store is what it returns for its source. -/
theorem tailText_source {st : LogStorage} {store : Option LogStore}
    (holdest : (st.source store).oldest ≤ (st.source store).size)
    (hsize : (st.source store).size < 2 ^ 63) :
    st.tailText store = (st.source store).tailText := by
  funext offset length
  rw [LogStorage.tailText, tailStore_eq holdest hsize]
  rfl

end LogSource

/-! ## A client beside a log -/

/-- A reply, and what it stands for. -/
structure TailReply where
  /-- The log that was read. -/
  source : LogSource
  /-- The bytes that are sent. -/
  bytes : List UInt8
  /-- The offset to go on from, before it is put into the reply. -/
  newOffset : ℤ
  /-- The text in the reply. -/
  text : String
  /-- The offset in the reply. -/
  offset : Int32
  overflow : Bool

/-- A log and its client. -/
structure TailClient where
  source : LogSource
  /-- The offset of the next request. -/
  offset : Value
  replies : List TailReply

/-- What happens to a log and its client. -/
inductive TailEvent
  | append (data : List UInt8)
  /-- A request, with a length or without one. -/
  | poll (length : Option Value)

namespace TailClient

variable (truncate : UInt64 → Int64)

/-- The answer of the daemon to the next request. -/
def reply (s : TailClient) (length : Option Value) : Except Fault Value :=
  SupervisorRpc.tailProcessLog truncate
    (fun _ _ offset length => .ok (s.source.tailText offset length))
    (.string "app" :: s.offset :: length.toList) .stdout

/-- The state after an event. The client passes back the offset of the reply. -/
def next (s : TailClient) : TailEvent → TailClient
  | .append data => { s with source := s.source.append data }
  | .poll length =>
      let args := SupervisorRpc.tailArgs truncate (some s.offset) length
      let (bytes, newOffset, _) := s.source.tail args.1.toInt args.2.toInt
      match s.reply truncate length with
      | .ok (.array [.string text, .int offset, .boolean overflow]) =>
          { s with
            offset := .int offset
            replies := s.replies ++ [⟨s.source, bytes, newOffset, text, offset, overflow⟩] }
      | _ => s

/-- A client that has not asked yet, beside any log, and all later states. -/
def system : TransitionSystem TailClient TailEvent where
  init s := s.source.oldest ≤ s.source.size ∧ s.replies = []
  step s e s' := s' = s.next truncate e

/-- The position that a request reaches has 31 bits. -/
def Fits (s : TailClient) : TailEvent → Prop
  | .append _ => True
  | .poll length =>
      let args := SupervisorRpc.tailArgs truncate (some s.offset) length
      s.source.Fits args.1.toInt args.2.toInt

/-- The main log is asked for in the same way. -/
theorem tailMainLog_eq (s : TailClient) (length : Option Value) :
    SupervisorRpc.tailMainLog truncate (fun offset length => .ok (s.source.tailText offset length))
      (s.offset :: length.toList) = s.reply truncate length := by
  cases length <;> rfl

/-- The answer for a store of a program. -/
theorem reply_of_store {s : TailClient} {st : LogStorage} {store : Option LogStore}
    (hsource : s.source = st.source store) (holdest : s.source.oldest ≤ s.source.size)
    (hsize : s.source.size < 2 ^ 63) (length : Option Value) :
    SupervisorRpc.tailProcessLog truncate
      (fun _ _ offset length => .ok (st.tailText store offset length))
      (.string "app" :: s.offset :: length.toList) .stdout = s.reply truncate length := by
  rw [hsource] at holdest hsize
  rw [reply, hsource, LogSource.tailText_source holdest hsize]

/-- A poll is answered, and the client goes on from the offset of the reply. -/
theorem next_poll (s : TailClient) (length : Option Value) :
    let args := SupervisorRpc.tailArgs truncate (some s.offset) length
    let selection := s.source.tail args.1.toInt args.2.toInt
    let offset := (Int64.ofInt selection.2.1).toInt32
    s.next truncate (.poll length) = { s with
      offset := .int offset
      replies := s.replies ++ [⟨s.source, selection.1, selection.2.1,
        Text.fromUtf8Lossy selection.1, offset, selection.2.2⟩] } := by
  cases length <;> rfl

/-- The offsets in the replies survive the wire. -/
structure OffsetsSurvive (replies : List TailReply) : Prop where
  /-- The text of a reply is that of the bytes sent. -/
  text : ∀ p ∈ replies, p.text = Text.fromUtf8Lossy p.bytes
  nonneg : ∀ p ∈ replies, 0 ≤ p.offset.toInt
  /-- The offsets do not decrease. -/
  sorted : replies.Pairwise fun p q => p.offset.toInt ≤ q.offset.toInt
  /-- No offset denotes a position behind the bytes that were sent. -/
  le_position : ∀ p ∈ replies, p.offset.toInt ≤ asU64 p.newOffset
  /-- A reply without overflow goes on with the bytes behind those of the reply before it, or with
  earlier ones. -/
  contiguous : replies.IsChain fun p q => q.overflow = false →
    ∃ start : ℤ, start ≤ asU64 p.newOffset ∧ q.source.oldest ≤ start ∧
      q.bytes = q.source.window start q.newOffset
  /-- A position that does not fit saturates. -/
  saturates : ∀ p ∈ replies, p.offset = u64ToI32 (asU64 p.newOffset)

/-- What holds after events that fit. -/
structure Invariant (s : TailClient) : Prop where
  oldest_le : s.source.oldest ≤ s.source.size
  /-- The offsets are positions of the log. -/
  exact : ∀ p ∈ s.replies, 0 ≤ p.newOffset ∧ p.newOffset < 2 ^ 31 ∧ p.newOffset ≤ s.source.size ∧
    p.offset.toInt = p.newOffset
  text : ∀ p ∈ s.replies, p.text = Text.fromUtf8Lossy p.bytes
  sorted : s.replies.Pairwise fun p q => p.newOffset ≤ q.newOffset
  contiguous : s.replies.IsChain fun p q => q.overflow = false →
    ∃ start : ℤ, start ≤ p.newOffset ∧ q.source.oldest ≤ start ∧
      q.bytes = q.source.window start q.newOffset
  /-- The next request asks for what follows the last reply. -/
  last : ∀ p ∈ s.replies.getLast?, s.offset = .int p.offset ∧
    (∀ q ∈ s.replies, q.newOffset ≤ p.newOffset) ∧
    (p.newOffset = s.source.size ∨ s.source.oldest < s.source.size)

variable {truncate}

/-- A position of 31 bits is put into a reply as it is. -/
theorem toInt_offset {n : ℤ} (hn : 0 ≤ n) (hlt : n < 2 ^ 31) :
    (Int64.ofInt n).toInt32.toInt = n := by
  rw [Int64.toInt_toInt32, Int64.toInt_ofInt_of_le (by omega) (by omega)]
  exact Int.bmod_eq_of_le (by omega) (by omega)

/-- When the offset in a reply is the saturated position. -/
theorem offset_eq_u64ToI32_iff {n : ℤ} (hn : 0 ≤ n) (hlt : n < 2 ^ 63) :
    (Int64.ofInt n).toInt32 = u64ToI32 (asU64 n) ↔ n < 2 ^ 31 ∨ n % 2 ^ 32 = 2 ^ 31 - 1 := by
  rw [← Int32.toInt_inj, Int64.toInt_toInt32, Int64.toInt_ofInt_of_le (by omega) hlt,
    asU64_of_lt hn (by omega), u64ToI32]
  split
  next hbig =>
    have hmax : Int32.maxValue.toInt = 2 ^ 31 - 1 := by decide
    rw [hmax, Int.bmod]
    omega
  next hsmall =>
    rw [Int32.toInt_ofNat_of_lt (by omega), Int.bmod]
    omega

/-- An append leaves the replies as they are. -/
theorem Invariant.append {s : TailClient} (h : s.Invariant) (data : List UInt8) :
    (s.next truncate (.append data)).Invariant := by
  obtain ⟨holdest, hsize, hgrown⟩ := LogSource.append_spec h.oldest_le data
  refine ⟨holdest, fun p hp => ?_, h.text, h.sorted, h.contiguous, fun p hp => ?_⟩
  · obtain ⟨hnonneg, hlt, hle, hexact⟩ := h.exact p hp
    exact ⟨hnonneg, hlt, hle.trans (Int.ofNat_le.mpr hsize), hexact⟩
  · obtain ⟨hoffset, hlast, hend⟩ := h.last p hp
    refine ⟨hoffset, hlast, ?_⟩
    show p.newOffset = (s.source.append data).size ∨ _
    rcases hgrown with hlt | ⟨hsame, hsame'⟩
    · exact .inr hlt
    · show _ ∨ (s.source.append data).oldest < (s.source.append data).size
      rwa [hsame, hsame']

/-- The next request asks for the position that the last reply reached. -/
theorem Invariant.request {s : TailClient} (h : s.Invariant) {p : TailReply}
    (hp : p ∈ s.replies.getLast?) (length : Option Value) :
    (SupervisorRpc.tailArgs truncate (some s.offset) length).1.toInt = p.newOffset := by
  obtain ⟨hoffset, -, -⟩ := h.last p hp
  rw [hoffset]
  show p.offset.toInt64.toInt = p.newOffset
  rw [Int32.toInt_toInt64]
  exact (h.exact p (List.mem_of_getLast? hp)).2.2.2

/-- A reply that goes on from the last one. -/
theorem Invariant.concat {s : TailClient} (h : s.Invariant) {p : TailReply}
    {offset length : ℤ} (hsource : p.source = s.source)
    (hselects : s.source.Selects offset length (p.bytes, p.newOffset, p.overflow))
    (hlt : p.newOffset < 2 ^ 31) (hexact : p.offset.toInt = p.newOffset)
    (htext : p.text = Text.fromUtf8Lossy p.bytes)
    (hrequest : ∀ q ∈ s.replies.getLast?, offset = q.newOffset) :
    Invariant { s with offset := .int p.offset, replies := s.replies ++ [p] } := by
  obtain ⟨-, hold, hle, hmono, start, hstart, hbytes, hbehind⟩ := hselects
  have hnonneg : 0 ≤ p.newOffset := (Int.natCast_nonneg _).trans hold
  have hsorted : ∀ q ∈ s.replies, q.newOffset ≤ p.newOffset := fun q hq => by
    obtain ⟨l, hl⟩ : ∃ l, s.replies.getLast? = some l :=
      ⟨_, List.getLast?_eq_some_getLast (List.ne_nil_of_mem hq)⟩
    have hlast := (h.last l hl).2.1 q hq
    have hsize := (h.exact l (List.mem_of_getLast? hl)).2.2.1
    rw [hrequest l hl] at hmono
    exact hlast.trans (hmono hsize)
  refine ⟨h.oldest_le, fun q hq => ?_, fun q hq => ?_, ?_, ?_, fun q hq => ?_⟩
  · rcases List.mem_append.mp hq with hq | hq
    · exact h.exact q hq
    · obtain rfl := List.mem_singleton.mp hq
      exact ⟨hnonneg, hlt, hle, hexact⟩
  · rcases List.mem_append.mp hq with hq | hq
    · exact h.text q hq
    · obtain rfl := List.mem_singleton.mp hq
      exact htext
  · refine List.pairwise_append.mpr ⟨h.sorted, List.pairwise_singleton _ _, fun q hq q' hq' => ?_⟩
    obtain rfl := List.mem_singleton.mp hq'
    exact hsorted q hq
  · refine List.isChain_append.mpr ⟨h.contiguous, List.isChain_singleton _, ?_⟩
    rintro q hq q' hq' hover
    obtain rfl : p = q' := by simpa using hq'
    obtain ⟨hpos, -, hsize, -⟩ := h.exact q (List.mem_of_getLast? hq)
    have hend := (h.last q hq).2.2
    rw [hrequest q hq] at hbehind
    refine ⟨start, ?_, ?_, ?_⟩
    · exact (hbehind hover hsize hend).trans (max_eq_left hpos).le
    · rw [hsource]
      exact hstart
    · rw [hsource]
      exact hbytes
  · obtain rfl : p = q := by simpa using hq
    refine ⟨rfl, fun q hq => ?_, ?_⟩
    · rcases List.mem_append.mp hq with hq | hq
      · exact hsorted q hq
      · exact (congrArg _ (List.mem_singleton.mp hq)).le
    · have holdest := h.oldest_le
      show p.newOffset = s.source.size ∨ s.source.oldest < s.source.size
      simp only at hold hle
      omega

/-- A poll that fits appends a reply that goes on from the last one. -/
theorem Invariant.poll {s : TailClient} (h : s.Invariant) {length : Option Value}
    (hfits : s.Fits truncate (.poll length)) : (s.next truncate (.poll length)).Invariant := by
  have hfits' : s.source.Fits
      (SupervisorRpc.tailArgs truncate (some s.offset) length).1.toInt
      (SupervisorRpc.tailArgs truncate (some s.offset) length).2.toInt := hfits
  have hselects := LogSource.selects_tail h.oldest_le hfits' (Int64.toInt_lt _)
  have hlt : (s.source.tail (SupervisorRpc.tailArgs truncate (some s.offset) length).1.toInt
      (SupervisorRpc.tailArgs truncate (some s.offset) length).2.toInt).2.1 < 2 ^ 31 := by
    rw [hselects.newOffset_eq]
    exact hfits'.2.2
  have hnonneg := (Int.natCast_nonneg _).trans hselects.oldest_le_newOffset
  rw [next_poll]
  exact h.concat (p := ⟨s.source, _, _, _, _, _⟩) rfl hselects hlt (toInt_offset hnonneg hlt) rfl
    fun q hq => h.request hq length

/-- The rule for runs. -/
theorem invariant_of_reachableWhile {s : TailClient}
    (h : (system truncate).ReachableWhile (Fits truncate) s) : s.Invariant := by
  refine h.invariant (fun s hinit => ?_) fun s e t _ hs hfits hstep => ?_
  · obtain ⟨holdest, hnone⟩ := hinit
    refine ⟨holdest, ?_, ?_, ?_, ?_, ?_⟩ <;> rw [hnone]
    · exact fun p hp => absurd hp List.not_mem_nil
    · exact fun p hp => absurd hp List.not_mem_nil
    · exact .nil
    · exact .nil
    · exact fun p hp => absurd hp (Option.not_mem_none p)
  · obtain rfl : t = s.next truncate e := hstep
    cases e with
    | append data => exact hs.append data
    | poll length => exact hs.poll hfits

/-- The offsets of replies survive the wire in every run in which each request reaches a position of
31 bits: they are not negative and do not decrease, no one denotes a position behind the bytes that
were sent, and the next reply passes over no byte without saying so. -/
theorem offsetsSurvive (truncate : UInt64 → Int64) {s : TailClient}
    (h : (system truncate).ReachableWhile (Fits truncate) s) : OffsetsSurvive s.replies := by
  obtain ⟨-, hexact, htext, hsorted, hcontiguous, -⟩ := invariant_of_reachableWhile h
  have hposition : ∀ p ∈ s.replies, (asU64 p.newOffset : ℤ) = p.newOffset := fun p hp => by
    obtain ⟨hnonneg, hlt, -, -⟩ := hexact p hp
    rw [asU64_of_lt hnonneg (by omega), Int.toNat_of_nonneg hnonneg]
  refine ⟨htext, fun p hp => ?_, ?_, fun p hp => ?_, ?_, fun p hp => ?_⟩
  · rw [(hexact p hp).2.2.2]
    exact (hexact p hp).1
  · refine hsorted.imp_of_mem fun {p q} hp hq hle => ?_
    rwa [(hexact p hp).2.2.2, (hexact q hq).2.2.2]
  · rw [(hexact p hp).2.2.2, hposition p hp]
  · refine hcontiguous.imp_of_mem_imp fun p q hp _ hgoes hover => ?_
    rw [hposition p hp]
    exact hgoes hover
  · obtain ⟨hnonneg, hlt, -, hoffset⟩ := hexact p hp
    have hsame : p.offset = (Int64.ofInt p.newOffset).toInt32 := by
      rw [← Int32.toInt_inj, hoffset, toInt_offset hnonneg hlt]
    rw [hsame]
    exact (offset_eq_u64ToI32_iff hnonneg (by omega)).mpr (.inl hlt)

/-- `offsetsSurvive` for two polls of a file of two bytes to which a third one is appended. -/
theorem offsetsSurvive_of_two_polls :
    OffsetsSurvive ((((⟨.file (some [97, 10]), .int 0, []⟩ : TailClient).next (fun _ => 0)
      (.poll none)).next (fun _ => 0) (.append [98])).next (fun _ => 0)
        (.poll (some (.int 8)))).replies := by
  have hstart : (system fun _ => 0).ReachableWhile (Fits fun _ => 0)
      ⟨.file (some [97, 10]), .int 0, []⟩ := .init ⟨by decide, rfl⟩
  have hfirst := hstart.step (l := TailEvent.poll none) ⟨nofun, by decide, by decide⟩ rfl
  have happend := hfirst.step (l := TailEvent.append [98]) trivial rfl
  have hsecond := happend.step (l := TailEvent.poll (some (.int 8)))
    ⟨nofun, by decide, by decide⟩ rfl
  exact offsetsSurvive _ hsecond

/-- The first reply for a log of `2 ^ 31` bytes. -/
theorem offset_of_length {bytes : List UInt8} (h : bytes.length = 2 ^ 31) :
    (next (fun _ => 0) ⟨.file (some bytes), .int 0, []⟩ (.poll none)).replies.map TailReply.offset =
      [-2147483648] := by
  have hselects := @LogSource.selects_file bytes (by omega) _ (Int64.toInt_lt 0) (Int64.toInt 4096)
  have hreply : (next (fun _ => 0) ⟨.file (some bytes), .int 0, []⟩ (.poll none)).replies.map
      TailReply.offset = [(Int64.ofInt (LogFileReader.tailSelectionI64 bytes (Int64.toInt 0)
        (Int64.toInt 4096)).2.1).toInt32] := by
    rw [next_poll]
    rfl
  rw [hreply, hselects.newOffset_eq, LogSource.position, h]
  decide

/-- A log of `2 ^ 31` bytes, read from its start: the offset in the reply is negative. -/
theorem exists_not_offsetsSurvive :
    let s : TailClient := ⟨.file (some (List.replicate (2 ^ 31) 0)), .int 0, []⟩
    (system fun _ => 0).Reachable (s.next (fun _ => 0) (.poll none)) ∧
      (s.next (fun _ => 0) (.poll none)).replies.map TailReply.offset = [-2147483648] ∧
      ¬ OffsetsSurvive (s.next (fun _ => 0) (.poll none)).replies := by
  intro s
  have hoffset := offset_of_length (List.length_replicate (n := 2 ^ 31) (a := (0 : UInt8)))
  refine ⟨.step (.init ⟨Nat.zero_le _, rfl⟩) trivial rfl, hoffset, fun h => ?_⟩
  have hmem : (-2147483648 : Int32) ∈ (s.next (fun _ => 0) (.poll none)).replies.map
      TailReply.offset := by
    rw [hoffset]
    exact List.mem_singleton_self _
  obtain ⟨p, hp, hneg⟩ := List.mem_map.mp hmem
  have hnonneg := h.nonneg p hp
  rw [hneg] at hnonneg
  exact absurd hnonneg (by decide)

end TailClient

end Rsupervisord
