import Rsupervisord.Logging.Pump
import Rsupervisord.Logging.RecentLines
import Rsupervisord.Support.Broadcast
import Rsupervisord.Support.HashMap
import Rsupervisord.Support.TransitionSystem

/-!
# The log of a program

The pumps of all children of a program push into one ring buffer, line by line and in any order,
while the log is read, followed and cleared. A pump reads at most `MAX_PUMP_CHUNK_SIZE` bytes at
once, and pushes a longer line of its child in pieces, each of them as a line of its own. The
broadcast channel to the followers is that of a library.

## Main definitions

* `ProgramLog`: the ring buffer of a program, its pumps, and those who follow it.
* `ProgramLog.next`: what a pump, a follower or a caller does next.

## Main results

* `ProgramLog.getLines_of_reachable`: what is read are the last lines of the pumps, each of them
  whole.
* `ProgramLog.live_of_reachable`: what a follower has received of the lines of the pumps.
-/

namespace Rsupervisord

open Lines ContinuousRingBuffer

/-! ## Ring buffers -/

/-- The recent lines of a program, and the channel to those who follow them. -/
structure RingBuffer (lib : BroadcastLibrary String) where
  capacityLines : ℕ
  inner : ContinuousRingBuffer
  broadcastTx : lib.Channel

namespace RingBuffer

variable {lib : BroadcastLibrary String}

/-- `with_byte_capacity`. -/
def withByteCapacity (lib : BroadcastLibrary String) (capacityBytes : ℕ) (maxLines : Option ℕ) :
    RingBuffer lib where
  capacityLines := maxLines.getD 2000
  inner := create (max capacityBytes 1024) maxLines
  broadcastTx := lib.channel 1024

/-- What `push_prefixed` puts before a line; `push_bytes` has no prefix. -/
def mark (ringPrefix : Option String) : List (List UInt8) :=
  match ringPrefix with
  | some p => [Text.utf8 p, Text.utf8 ": "]
  | none => []

/-- The line that is sent to the followers of the log. -/
def liveLine (ringPrefix : Option String) (data : List UInt8) : String :=
  match ringPrefix with
  | some p => p ++ ": " ++ Text.fromUtf8Lossy data
  | none => Text.fromUtf8Lossy data

/-- The first part of `push_bytes` and `push_prefixed`: nothing is sent when nobody follows. -/
def send (b : RingBuffer lib) (receiverCount : ℕ) (ringPrefix : Option String)
    (data : List UInt8) : RingBuffer lib :=
  if receiverCount > 0 then
    { b with broadcastTx := lib.send b.broadcastTx (liveLine ringPrefix data) }
  else b

/-- The second part of `push_bytes` and `push_prefixed`: the lock is held until the line has its
newline. -/
def write (b : RingBuffer lib) (ringPrefix : Option String) (data : List UInt8) :
    RingBuffer lib :=
  let ending := if data.getLast? = some newline then [] else [[newline]]
  let pieces := mark ringPrefix ++ [data] ++ ending
  { b with inner := pieces.foldl writeBytes b.inner }

/-- `clear`. -/
def clear (b : RingBuffer lib) : RingBuffer lib := { b with inner := b.inner.clear }

/-- `get_line_slices`, and `get_lines` as the bytes of the lines. -/
def getLines (b : RingBuffer lib) (maxLines : Option ℕ) : List (List UInt8) :=
  b.inner.readLineSlices maxLines

end RingBuffer

/-! ## Pumps -/

/-- What the task of a pump does next, and the line that it has at hand. -/
inductive PumpPhase
  | reading
  | sending (buf : List UInt8)
  | pushing (buf : List UInt8)
  | delivering (buf : List UInt8)
  | ended
  deriving DecidableEq, Repr

namespace PumpPhase

/-- The line that was read but not sent. -/
def unsent : PumpPhase → List (List UInt8)
  | sending buf => [buf]
  | _ => []

/-- The line that was sent but not pushed. -/
def unpushed : PumpPhase → List (List UInt8)
  | pushing buf => [buf]
  | _ => []

/-- The line that was pushed but not delivered. -/
def undelivered : PumpPhase → List (List UInt8)
  | delivering buf => [buf]
  | _ => []

end PumpPhase

/-- The task of a pump: the output of its child, of which a part is not read yet, and what its back
end was given. -/
structure PumpTask where
  ringPrefix : Option String
  /-- All that the child writes. -/
  input : List UInt8
  unread : List UInt8
  phase : PumpPhase
  /-- The lines that the back end was given. -/
  delivered : List (List UInt8)
  deriving DecidableEq, Repr

/-- The lines of standard error are marked unless it is redirected. -/
def pumpPrefix (stderr redirectStderr : Bool) : Option String :=
  if stderr = true ∧ redirectStderr = false then some "STDERR" else none

/-- A line that a pump has handed on. -/
structure LogLine where
  pump : ℕ
  ringPrefix : Option String
  data : List UInt8
  deriving DecidableEq, Repr

namespace LogLine

/-- The line as it is read. -/
def bytes (l : LogLine) : List UInt8 := (RingBuffer.mark l.ringPrefix).flatten ++ l.data

/-- The line as it is followed. -/
def live (l : LogLine) : String := RingBuffer.liveLine l.ringPrefix l.data

/-- The lines of one pump. -/
def ofPump (i : ℕ) (ls : List LogLine) : List (List UInt8) :=
  (ls.filter fun l => l.pump = i).map data

theorem ofPump_concat (i : ℕ) (ls : List LogLine) (l : LogLine) :
    ofPump i (ls ++ [l]) = ofPump i ls ++ if l.pump = i then [l.data] else [] := by
  rw [ofPump, ofPump, List.filter_append, List.map_append]
  split_ifs with h <;> simp [h]

theorem ofPump_eq_nil {i : ℕ} {ls : List LogLine} (h : ∀ l ∈ ls, l.pump ≠ i) :
    ofPump i ls = [] := by
  rw [ofPump, List.filter_eq_nil_iff.mpr (by simpa using h), List.map_nil]

end LogLine

/-! ## The log -/

/-- The log of a program. A follower is given with the number of lines that had been sent when it
subscribed. -/
structure ProgramLog (lib : BroadcastLibrary String) where
  ring : RingBuffer lib
  receivers : HashMap ℕ (Receiver String × ℕ)
  pumps : HashMap ℕ PumpTask
  /-- The lines in the order in which they were sent. -/
  sent : List LogLine
  /-- The lines in the order in which they were pushed. -/
  pushed : List LogLine
  /-- The number of lines that had been pushed when the log was cleared last. -/
  cleared : ℕ

/-- What happens to the log of a program. -/
inductive LogLabel
  /-- A child is started, and one of its streams has a pump. -/
  | spawn (i : ℕ) (stderr redirectStderr : Bool) (input : List UInt8)
  | pump (i : ℕ)
  /-- A read fails, or the task is aborted where it waits. -/
  | abort (i : ℕ)
  | subscribe (k : ℕ)
  | receive (k : ℕ)
  | unsubscribe (k : ℕ)
  | clear
  deriving DecidableEq, Repr

namespace ProgramLog

variable {lib : BroadcastLibrary String} (s : ProgramLog lib)

/-- The log of a new program. -/
def start (lib : BroadcastLibrary String) (bufferSize : ℕ) : ProgramLog lib :=
  ⟨.withByteCapacity lib bufferSize (some (max 100 2000)), ∅, ∅, [], [], 0⟩

/-- The lines that were pushed since the log was cleared. -/
def recent : List LogLine := s.pushed.drop s.cleared

/-- The next step of a pump that is not at its end. -/
def stepPump (i : ℕ) (p : PumpTask) : PumpPhase → Option (ProgramLog lib)
  | .reading =>
      let (buf, unread) := LogPump.readUntil maxPumpChunkSize p.unread
      if buf = [] then some { s with pumps := s.pumps.insert i { p with phase := .ended } }
      else
        some { s with
          pumps := s.pumps.insert i
            { p with unread := unread, phase := .sending (LogPump.strip buf) } }
  | .sending buf =>
      some { s with
        ring := s.ring.send s.receivers.keys.length p.ringPrefix buf
        sent := s.sent ++ [⟨i, p.ringPrefix, buf⟩]
        pumps := s.pumps.insert i { p with phase := .pushing buf } }
  | .pushing buf =>
      some { s with
        ring := s.ring.write p.ringPrefix buf
        pushed := s.pushed ++ [⟨i, p.ringPrefix, buf⟩]
        pumps := s.pumps.insert i { p with phase := .delivering buf } }
  | .delivering buf =>
      some { s with
        pumps := s.pumps.insert i
          { p with phase := .reading, delivered := p.delivered ++ [buf ++ [newline]] } }
  | .ended => none

/-- The next state of the log. -/
def next : ProgramLog lib → LogLabel → Option (ProgramLog lib)
  | s, .spawn i stderr redirectStderr input =>
      if i ∈ s.pumps then none
      else
        some { s with
          pumps := s.pumps.insert i
            ⟨pumpPrefix stderr redirectStderr, input, input, .reading, []⟩ }
  | s, .pump i => (s.pumps.lookup i).bind fun p => s.stepPump i p p.phase
  | s, .abort i =>
      (s.pumps.lookup i).bind fun p =>
        match p.phase with
        | .reading | .delivering _ =>
            some { s with pumps := s.pumps.insert i { p with phase := .ended } }
        | _ => none
  | s, .subscribe k =>
      if k ∈ s.receivers then none
      else
        some { s with
          receivers := s.receivers.insert k (lib.subscribe s.ring.broadcastTx, s.sent.length) }
  | s, .receive k =>
      (s.receivers.lookup k).map fun r =>
        { s with receivers := s.receivers.insert k (r.1.recv lib s.ring.broadcastTx, r.2) }
  | s, .unsubscribe k => some { s with receivers := s.receivers.erase k }
  | s, .clear => some { s with ring := s.ring.clear, cleared := s.pushed.length }

/-- The log as a transition system. -/
def system (lib : BroadcastLibrary String) (bufferSize : ℕ) :
    TransitionSystem (ProgramLog lib) LogLabel :=
  .ofNext (start lib bufferSize) next

/-! ## What a pump does -/

variable {s} {t : ProgramLog lib} {i : ℕ} {p : PumpTask} {bufferSize : ℕ}

/-- A step of a pump, with what it has read. -/
inductive Advance (s : ProgramLog lib) (i : ℕ) (p : PumpTask) : ProgramLog lib → Prop
  | ended (hphase : p.phase = .reading)
      (hread : (LogPump.readUntil maxPumpChunkSize p.unread).1 = []) :
      Advance s i p { s with pumps := s.pumps.insert i { p with phase := .ended } }
  | read {buf unread : List UInt8} (hphase : p.phase = .reading)
      (hread : LogPump.readUntil maxPumpChunkSize p.unread = (buf, unread)) (hbuf : buf ≠ []) :
      Advance s i p { s with
        pumps := s.pumps.insert i
          { p with unread := unread, phase := .sending (LogPump.strip buf) } }
  | sent {buf : List UInt8} (hphase : p.phase = .sending buf) :
      Advance s i p { s with
        ring := s.ring.send s.receivers.keys.length p.ringPrefix buf
        sent := s.sent ++ [⟨i, p.ringPrefix, buf⟩]
        pumps := s.pumps.insert i { p with phase := .pushing buf } }
  | pushed {buf : List UInt8} (hphase : p.phase = .pushing buf) :
      Advance s i p { s with
        ring := s.ring.write p.ringPrefix buf
        pushed := s.pushed ++ [⟨i, p.ringPrefix, buf⟩]
        pumps := s.pumps.insert i { p with phase := .delivering buf } }
  | delivered {buf : List UInt8} (hphase : p.phase = .delivering buf) :
      Advance s i p { s with
        pumps := s.pumps.insert i
          { p with phase := .reading, delivered := p.delivered ++ [buf ++ [newline]] } }

theorem advance_of_stepPump (h : s.stepPump i p p.phase = some t) : Advance s i p t := by
  generalize hphase : p.phase = phase at h
  cases phase with
  | reading =>
    simp only [stepPump] at h
    split_ifs at h with hbuf
    · exact Option.some.inj h ▸ .ended hphase hbuf
    · exact Option.some.inj h ▸ .read hphase rfl hbuf
  | sending buf => exact Option.some.inj h ▸ .sent hphase
  | pushing buf => exact Option.some.inj h ▸ .pushed hphase
  | delivering buf => exact Option.some.inj h ▸ .delivered hphase
  | ended => cases h

/-- A step of the log. -/
inductive Step (s : ProgramLog lib) : LogLabel → ProgramLog lib → Prop
  | spawn {i : ℕ} {stderr redirectStderr : Bool} {input : List UInt8} (hnew : i ∉ s.pumps) :
      Step s (.spawn i stderr redirectStderr input) { s with
        pumps := s.pumps.insert i
          ⟨pumpPrefix stderr redirectStderr, input, input, .reading, []⟩ }
  | pump {i : ℕ} {p : PumpTask} {t : ProgramLog lib} (hp : s.pumps.lookup i = some p)
      (h : Advance s i p t) : Step s (.pump i) t
  | abort {i : ℕ} {p : PumpTask} (hp : s.pumps.lookup i = some p)
      (hphase : p.phase = .reading ∨ ∃ buf, p.phase = .delivering buf) :
      Step s (.abort i) { s with pumps := s.pumps.insert i { p with phase := .ended } }
  | subscribe {k : ℕ} (hnew : k ∉ s.receivers) :
      Step s (.subscribe k) { s with
        receivers := s.receivers.insert k (lib.subscribe s.ring.broadcastTx, s.sent.length) }
  | receive {k n : ℕ} {r : Receiver String} (hr : s.receivers.lookup k = some (r, n)) :
      Step s (.receive k) { s with
        receivers := s.receivers.insert k (r.recv lib s.ring.broadcastTx, n) }
  | unsubscribe {k : ℕ} : Step s (.unsubscribe k) { s with receivers := s.receivers.erase k }
  | clear : Step s .clear { s with ring := s.ring.clear, cleared := s.pushed.length }

theorem next_cases {l : LogLabel} (h : next s l = some t) : Step s l t := by
  cases l with
  | spawn i stderr redirectStderr input =>
    rw [next] at h
    split_ifs at h with hnew
    exact Option.some.inj h ▸ .spawn hnew
  | pump i =>
    obtain ⟨p, hp, h⟩ := Option.bind_eq_some_iff.mp h
    exact .pump hp (advance_of_stepPump h)
  | abort i =>
    obtain ⟨p, hp, h⟩ := Option.bind_eq_some_iff.mp h
    split at h
    next hphase => exact Option.some.inj h ▸ .abort hp (.inl hphase)
    next buf hphase => exact Option.some.inj h ▸ .abort hp (.inr ⟨buf, hphase⟩)
    next => cases h
  | subscribe k =>
    rw [next] at h
    split_ifs at h with hnew
    exact Option.some.inj h ▸ .subscribe hnew
  | receive k =>
    obtain ⟨⟨r, n⟩, hr, h⟩ := Option.map_eq_some_iff.mp h
    exact h ▸ .receive hr
  | unsubscribe k => exact Option.some.inj h ▸ .unsubscribe
  | clear => exact Option.some.inj h ▸ .clear

/-! ## The lines of the pumps -/

/-- Where the lines of a pump are. -/
structure PumpFits (s : ProgramLog lib) (i : ℕ) (p : PumpTask) : Prop where
  input : LogPump.chunks maxPumpChunkSize p.input =
    LogLine.ofPump i s.sent ++ p.phase.unsent ++ LogPump.chunks maxPumpChunkSize p.unread
  sent : LogLine.ofPump i s.sent = LogLine.ofPump i s.pushed ++ p.phase.unpushed
  delivered : p.phase ≠ .ended → (LogLine.ofPump i s.pushed).map (· ++ [newline]) =
    p.delivered ++ p.phase.undelivered.map (· ++ [newline])
  delivered_begins : p.delivered <+: (LogLine.ofPump i s.pushed).map (· ++ [newline])
  mark : p.ringPrefix = none ∨ p.ringPrefix = some "STDERR"

/-- Each line has its pump. -/
structure PumpsFit (s : ProgramLog lib) : Prop where
  fits : ∀ {i p}, s.pumps.lookup i = some p → PumpFits s i p
  known : ∀ l ∈ s.sent ++ s.pushed, ∃ p, s.pumps.lookup l.pump = some p ∧
    p.ringPrefix = l.ringPrefix

theorem pumpsFit_start : PumpsFit (start lib bufferSize) where
  fits := by simp [start]
  known := by simp [start]

/-- The lines of a pump that another pump adds nothing to. -/
theorem PumpFits.frame (h : PumpFits s i p)
    (hsent : LogLine.ofPump i t.sent = LogLine.ofPump i s.sent)
    (hpushed : LogLine.ofPump i t.pushed = LogLine.ofPump i s.pushed) : PumpFits t i p := by
  obtain ⟨hinput, hsent', hdelivered, hbegins, hmark⟩ := h
  rw [← hsent] at hinput hsent'
  rw [← hpushed] at hsent' hdelivered hbegins
  exact ⟨hinput, hsent', hdelivered, hbegins, hmark⟩

/-- A step of a pump: the pump itself, and its new lines. -/
theorem PumpFits.advance (h : PumpFits s i p) (hstep : Advance s i p t) :
    ∃ p', t.pumps = s.pumps.insert i p' ∧ PumpFits t i p' ∧ p'.ringPrefix = p.ringPrefix ∧
      ∀ l ∈ t.sent ++ t.pushed, l ∈ s.sent ++ s.pushed ∨ l.pump = i ∧
        l.ringPrefix = p.ringPrefix := by
  obtain ⟨hinput, hsent, hdelivered, hbegins, hmark⟩ := h
  cases hstep with
  | ended hphase hread =>
    rw [hphase] at hinput hsent
    exact ⟨_, rfl, ⟨hinput, hsent, nofun, hbegins, hmark⟩, rfl, fun l hl => .inl hl⟩
  | read hphase hread hbuf =>
    rw [hphase] at hinput hsent hdelivered
    rw [LogPump.chunks_of_read hread hbuf] at hinput
    refine ⟨_, rfl, ⟨?_, hsent, fun _ => hdelivered nofun, hbegins, hmark⟩, rfl,
      fun l hl => .inl hl⟩
    rw [hinput]
    simp [PumpPhase.unsent]
  -- The line at hand is now among those that were sent, and not pushed yet.
  | sent hphase =>
    rw [hphase] at hinput hsent hdelivered
    refine ⟨_, rfl, ⟨?_, ?_, fun _ => hdelivered nofun, hbegins, hmark⟩, rfl, ?_⟩
    · simpa [LogLine.ofPump_concat, PumpPhase.unsent] using hinput
    · simpa [LogLine.ofPump_concat, PumpPhase.unpushed] using hsent
    · intro l hl
      simp only [List.mem_append, List.mem_singleton] at hl ⊢
      obtain (hl | rfl) | hl := hl
      · exact .inl (.inl hl)
      · exact .inr ⟨rfl, rfl⟩
      · exact .inl (.inr hl)
  -- It is now among those that were pushed, and not delivered yet.
  | pushed hphase =>
    rw [hphase] at hinput hsent hdelivered
    have hall := hdelivered nofun
    refine ⟨_, rfl, ⟨hinput, ?_, ?_, ?_, hmark⟩, rfl, ?_⟩
    · simpa [LogLine.ofPump_concat, PumpPhase.unpushed] using hsent
    · intro _
      simpa [LogLine.ofPump_concat, PumpPhase.undelivered] using hall
    · simp only [LogLine.ofPump_concat, if_true, List.map_append]
      exact hbegins.trans (List.prefix_append _ _)
    · intro l hl
      simp only [List.mem_append, List.mem_singleton] at hl ⊢
      obtain hl | hl | rfl := hl
      · exact .inl (.inl hl)
      · exact .inl (.inr hl)
      · exact .inr ⟨rfl, rfl⟩
  | delivered hphase =>
    rw [hphase] at hinput hsent hdelivered
    have hall := hdelivered nofun
    refine ⟨_, rfl, ⟨hinput, hsent, ?_, ?_, hmark⟩, rfl, fun l hl => .inl hl⟩
    · intro _
      simpa [PumpPhase.undelivered] using hall
    · simp only [hall, PumpPhase.undelivered, List.map_cons, List.map_nil]
      exact List.prefix_rfl

/-- A pump adds no line to those of another one. -/
theorem Advance.ofPump {j : ℕ} (h : Advance s i p t) (hne : j ≠ i) :
    LogLine.ofPump j t.sent = LogLine.ofPump j s.sent ∧
      LogLine.ofPump j t.pushed = LogLine.ofPump j s.pushed := by
  cases h with
  | ended | read | delivered => exact ⟨rfl, rfl⟩
  | sent => exact ⟨by simp [LogLine.ofPump_concat, hne.symm], rfl⟩
  | pushed => exact ⟨rfl, by simp [LogLine.ofPump_concat, hne.symm]⟩

/-- A step that changes neither the pumps nor their lines. -/
theorem PumpsFit.frame (h : PumpsFit s) (hpumps : t.pumps = s.pumps) (hsent : t.sent = s.sent)
    (hpushed : t.pushed = s.pushed) : PumpsFit t := by
  refine ⟨fun {i p} hp => ?_, ?_⟩
  · rw [hpumps] at hp
    exact (h.fits hp).frame (by rw [hsent]) (by rw [hpushed])
  · rw [hpumps, hsent, hpushed]
    exact h.known

theorem PumpsFit.step {l : LogLabel} (h : PumpsFit s) (hstep : Step s l t) : PumpsFit t := by
  cases hstep with
  | @spawn i stderr redirectStderr input hnew =>
    -- The pumps of all lines are known, and this one is new.
    have hnone : ∀ l ∈ s.sent ++ s.pushed, l.pump ≠ i := by
      rintro l hl rfl
      obtain ⟨p, hp, -⟩ := h.known l hl
      exact hnew (HashMap.mem_iff_lookup.mpr ⟨p, hp⟩)
    have hsent : LogLine.ofPump i s.sent = [] :=
      LogLine.ofPump_eq_nil fun l hl => hnone l (List.mem_append_left _ hl)
    have hpushed : LogLine.ofPump i s.pushed = [] :=
      LogLine.ofPump_eq_nil fun l hl => hnone l (List.mem_append_right _ hl)
    refine ⟨fun {j q} hq => ?_, fun l hl => ?_⟩
    · rw [HashMap.lookup_insert] at hq
      split_ifs at hq with hj
      · obtain rfl := Option.some.inj hq
        subst hj
        refine ⟨?_, ?_, fun _ => ?_, List.nil_prefix, ?_⟩
        · simp [hsent, PumpPhase.unsent]
        · simp [hsent, hpushed, PumpPhase.unpushed]
        · simp [hpushed, PumpPhase.undelivered]
        · unfold pumpPrefix
          split_ifs
          · exact .inr rfl
          · exact .inl rfl
      · exact (h.fits hq).frame rfl rfl
    · obtain ⟨p, hp, hmark⟩ := h.known l hl
      refine ⟨p, ?_, hmark⟩
      rw [HashMap.lookup_insert, if_neg (hnone l hl), hp]
  | @pump i p t hp hadvance =>
    obtain ⟨p', hpumps, hfits, hmark, hlines⟩ := (h.fits hp).advance hadvance
    refine ⟨fun {j q} hq => ?_, fun l hl => ?_⟩
    · rw [hpumps, HashMap.lookup_insert] at hq
      split_ifs at hq with hj
      · obtain rfl := Option.some.inj hq
        exact hj ▸ hfits
      · obtain ⟨hsent, hpushed⟩ := hadvance.ofPump hj
        exact (h.fits hq).frame hsent hpushed
    · rw [hpumps, HashMap.lookup_insert]
      obtain hl | ⟨hpump, hbegins⟩ := hlines l hl
      · obtain ⟨q, hq, hqmark⟩ := h.known l hl
        split_ifs with hpump
        · rw [hpump, hp] at hq
          obtain rfl := Option.some.inj hq
          exact ⟨p', rfl, hmark.trans hqmark⟩
        · exact ⟨q, hq, hqmark⟩
      · exact ⟨p', if_pos hpump, hmark.trans hbegins.symm⟩
  | @abort i p hp hphase =>
    -- Only a pump that waits for its child or its back end is aborted: it has pushed what it sent.
    obtain ⟨hinput, hsent, -, hbegins, hmark⟩ := h.fits hp
    refine ⟨fun {j q} hq => ?_, fun l hl => ?_⟩
    · rw [HashMap.lookup_insert] at hq
      split_ifs at hq with hj
      · obtain rfl := Option.some.inj hq
        subst hj
        obtain hphase | ⟨buf, hphase⟩ := hphase
        · rw [hphase] at hinput hsent
          exact ⟨hinput, hsent, nofun, hbegins, hmark⟩
        · rw [hphase] at hinput hsent
          exact ⟨hinput, hsent, nofun, hbegins, hmark⟩
      · exact (h.fits hq).frame rfl rfl
    · obtain ⟨q, hq, hqmark⟩ := h.known l hl
      rw [HashMap.lookup_insert]
      split_ifs with hpump
      · rw [hpump, hp] at hq
        obtain rfl := Option.some.inj hq
        exact ⟨_, rfl, hqmark⟩
      · exact ⟨q, hq, hqmark⟩
  | subscribe | receive | unsubscribe | clear => exact h.frame rfl rfl rfl

/-! ## The ring buffer -/

/-- The ring buffer holds the lines that were pushed since it was cleared. -/
structure RingFits (bufferSize : ℕ) (s : ProgramLog lib) : Prop where
  holds : s.ring.inner.HoldsLines (s.recent.map LogLine.bytes)
  capacity : s.ring.inner.capacity = max bufferSize 1024
  maxLineIndex : s.ring.inner.maxLineIndex = some 2000
  cleared : s.cleared ≤ s.pushed.length

theorem ringFits_start : RingFits bufferSize (start lib bufferSize) := by
  have hcreate := holdsLines_create (max bufferSize 1024) (some (max 100 2000))
  refine ⟨hcreate, ?_, ?_, le_rfl⟩
  · have hpos : 1 ≤ max bufferSize 1024 := by omega
    exact create_capacity.trans (max_eq_left hpos)
  · exact create_maxLineIndex

/-- A line of a pump has no newline in it. -/
theorem PumpsFit.newline_notMem (h : PumpsFit s) (hp : s.pumps.lookup i = some p)
    {buf : List UInt8} (hphase : p.phase = .pushing buf) :
    newline ∉ buf ∧ newline ∉ (⟨i, p.ringPrefix, buf⟩ : LogLine).bytes := by
  obtain ⟨hinput, hsent, -, -, hmark⟩ := h.fits hp
  have hbuf : newline ∉ buf := by
    have hmem : buf ∈ LogPump.chunks maxPumpChunkSize p.input := by
      rw [hinput, hsent, hphase]
      simp [PumpPhase.unpushed]
    exact LogPump.newline_notMem_chunks hmem
  refine ⟨hbuf, ?_⟩
  obtain hmark | hmark := hmark
  · simpa [LogLine.bytes, RingBuffer.mark, hmark] using hbuf
  · have hlabel : newline ∉ Text.utf8 "STDERR" ++ Text.utf8 ": " := by decide
    simpa [LogLine.bytes, RingBuffer.mark, hmark, hbuf] using hlabel

theorem RingFits.step {l : LogLabel} (h : RingFits bufferSize s) (hpumps : PumpsFit s)
    (hstep : Step s l t) : RingFits bufferSize t := by
  have hframe : ∀ {t : ProgramLog lib}, t.ring.inner = s.ring.inner → t.pushed = s.pushed →
      t.cleared = s.cleared → RingFits bufferSize t := by
    intro t hinner hpushed hcleared
    refine ⟨?_, ?_, ?_, ?_⟩
    · rw [recent, hinner, hpushed, hcleared]
      exact h.holds
    · rw [hinner, h.capacity]
    · rw [hinner, h.maxLineIndex]
    · rw [hcleared, hpushed]
      exact h.cleared
  cases hstep with
  | spawn | abort | subscribe | receive | unsubscribe => exact hframe rfl rfl rfl
  | clear =>
    refine ⟨?_, h.capacity, h.maxLineIndex, le_rfl⟩
    have hrecent : s.pushed.drop s.pushed.length = [] := List.drop_length
    rw [recent, hrecent]
    exact holdsLines_clear s.ring.inner
  | @pump i p t hp hadvance =>
    cases hadvance with
    | ended | read | delivered => exact hframe rfl rfl rfl
    | sent =>
      refine hframe ?_ rfl rfl
      simp only [RingBuffer.send]
      split_ifs <;> rfl
    | @pushed buf hphase =>
      -- What a pump reads has no newline in it, and becomes one line of the buffer.
      obtain ⟨hbuf, hline⟩ := hpumps.newline_notMem hp hphase
      have hlast : buf.getLast? ≠ some newline := fun hlast => hbuf (List.mem_of_getLast? hlast)
      have hrecent : (s.pushed ++ [(⟨i, p.ringPrefix, buf⟩ : LogLine)]).drop s.cleared =
          s.recent ++ [⟨i, p.ringPrefix, buf⟩] := List.drop_append_of_le_length h.cleared
      refine ⟨?_, ?_, ?_, ?_⟩
      · rw [recent, hrecent, List.map_append]
        refine h.holds.write hline ?_
        simp [hlast, LogLine.bytes]
      · simp only [RingBuffer.write, foldl_writeBytes_capacity, h.capacity]
      · simp only [RingBuffer.write, foldl_writeBytes_maxLineIndex, h.maxLineIndex]
      · exact h.cleared.trans (by simp)

/-! ## Followers -/

/-- Each follower has received of what was sent since it subscribed. -/
def LiveFits (s : ProgramLog lib) : Prop :=
  ∃ log, lib.Carries s.ring.broadcastTx log ∧ ∀ {k r n}, s.receivers.lookup k = some (r, n) →
    r.Follows log ∧ log.drop r.start = (s.sent.drop n).map LogLine.live ∧ n ≤ s.sent.length

theorem liveFits_start : LiveFits (start lib bufferSize) :=
  ⟨[], lib.carries_channel _, by simp [start]⟩

theorem LiveFits.step {l : LogLabel} (h : LiveFits s) (hstep : Step s l t) : LiveFits t := by
  obtain ⟨log, hcarries, hall⟩ := h
  cases hstep with
  | spawn | abort | clear => exact ⟨log, hcarries, hall⟩
  | @subscribe k hnew =>
    refine ⟨log, hcarries, fun {k' r n} hr => ?_⟩
    rw [HashMap.lookup_insert] at hr
    split_ifs at hr
    · obtain ⟨rfl, rfl⟩ := Prod.mk.inj (Option.some.inj hr)
      -- A new follower has nothing to receive yet.
      refine ⟨.subscribe hcarries, ?_, le_rfl⟩
      rw [List.drop_length, List.map_nil]
      exact List.drop_eq_nil_of_le (lib.tail_eq hcarries).ge
    · exact hall hr
  | @receive k n r hr =>
    obtain ⟨hfollows, hsince, hle⟩ := hall hr
    refine ⟨log, hcarries, fun {k' r' n'} hr' => ?_⟩
    rw [HashMap.lookup_insert] at hr'
    split_ifs at hr'
    · obtain ⟨rfl, rfl⟩ := Prod.mk.inj (Option.some.inj hr')
      rw [Receiver.recv_start]
      exact ⟨hfollows.recv hcarries, hsince, hle⟩
    · exact hall hr'
  | @unsubscribe k =>
    refine ⟨log, hcarries, fun {k' r n} hr => ?_⟩
    rw [HashMap.lookup_erase] at hr
    split_ifs at hr
    exact hall hr
  | @pump i p t hp hadvance =>
    cases hadvance with
    | ended | read | delivered => exact ⟨log, hcarries, hall⟩
    | pushed => exact ⟨log, hcarries, hall⟩
    | @sent buf hphase =>
      by_cases hnone : s.receivers.keys.length > 0
      · -- The line is sent to all followers.
        refine ⟨log ++ [RingBuffer.liveLine p.ringPrefix buf], ?_, fun {k r n} hr => ?_⟩
        · simp only [RingBuffer.send, if_pos hnone]
          exact lib.carries_send hcarries _
        · obtain ⟨hfollows, hsince, hle⟩ := hall hr
          refine ⟨hfollows.append _, ?_, hle.trans (by simp)⟩
          rw [List.drop_append_of_le_length (hfollows.start_le.trans hfollows.next_le), hsince,
            List.drop_append_of_le_length hle, List.map_append]
          rfl
      · -- Nobody follows.
        refine ⟨log, ?_, fun {k r n} hr => ?_⟩
        · simp only [RingBuffer.send, if_neg hnone]
          exact hcarries
        · have hmem : k ∈ s.receivers.keys :=
            AList.mem_keys.mp (HashMap.mem_iff_lookup.mpr ⟨_, hr⟩)
          exact absurd (List.length_pos_of_mem hmem) hnone

/-! ## What is read and what is followed -/

/-- All of this holds of the log. -/
structure Invariant (bufferSize : ℕ) (s : ProgramLog lib) : Prop where
  pumps : PumpsFit s
  ring : RingFits bufferSize s
  live : LiveFits s

theorem invariant (h : (system lib bufferSize).Reachable s) : Invariant bufferSize s := by
  refine h.invariant (fun s hinit => ?_) fun s l t _ hs _ hstep => ?_
  · obtain rfl := hinit
    exact ⟨pumpsFit_start, ringFits_start, liveFits_start⟩
  · have hstep := next_cases hstep
    exact ⟨hs.pumps.step hstep, hs.ring.step hs.pumps hstep, hs.live.step hstep⟩

/-- The recent lines of a program are the last ones that its pumps pushed since the log was cleared,
each of them a whole line of one pump, as many as fit into the ring buffer. A pump has pushed the
lines of what it has read, in their order, except the one that it has at hand, and has delivered no
other lines to its back end. -/
theorem getLines_of_reachable (hreach : (system lib bufferSize).Reachable s) (limit : Option ℕ) :
    s.ring.getLines limit =
        ((lastEntries limit (lastEntries (some 2000)
          (fitting (max bufferSize 1024) (s.recent.map LogLine.bytes)))).map
            fun e => Text.utf8 (Text.fromUtf8Lossy (chop 13 e))) ∧
      ∀ i p, s.pumps.lookup i = some p → ∃ atHand, atHand.length ≤ 1 ∧
        LogPump.chunks maxPumpChunkSize p.input = LogLine.ofPump i s.pushed ++ atHand ++
          LogPump.chunks maxPumpChunkSize p.unread ∧
        p.delivered <+: (LogLine.ofPump i s.pushed).map (· ++ [newline]) := by
  have hinv := invariant hreach
  constructor
  · rw [RingBuffer.getLines, hinv.ring.holds.readLineSlices, hinv.ring.capacity,
      hinv.ring.maxLineIndex]
  · intro i p hp
    have hfits := hinv.pumps.fits hp
    refine ⟨p.phase.unpushed ++ p.phase.unsent, ?_, ?_, hfits.delivered_begins⟩
    · cases p.phase <;> simp [PumpPhase.unpushed, PumpPhase.unsent]
    · rw [hfits.input, hfits.sent]
      simp only [List.append_assoc]

/-- A line on standard error, with the terminator of another system, is followed and pushed. -/
def greeting : List LogLabel :=
  [.subscribe 7, .spawn 0 true false [104, 105, 13, 10], .pump 0, .pump 0, .pump 0, .receive 7]

theorem replay_greeting : ∃ s r,
    TransitionSystem.replay next (start (Broadcast.library String) 0) greeting = some s ∧
    s.recent = [⟨0, some "STDERR", [104, 105]⟩] ∧
    s.receivers.lookup 7 = some (r, 0) ∧ r.missed = 0 ∧ s.sent = s.recent ∧
    (Broadcast.library String).tail s.ring.broadcastTx - r.next = 0 :=
  ⟨_, _, rfl, rfl, rfl, rfl, rfl, rfl⟩

/-- The line is read with its mark and without its terminator. -/
theorem getLines_of_greeting : ∃ s, (system (Broadcast.library String) 0).Reachable s ∧
    s.sent.length = 1 ∧ s.ring.getLines none = [Text.utf8 "STDERR: hi"] := by
  obtain ⟨s, r, hreplay, hrecent, -, -, hsent, -⟩ := replay_greeting
  have hreach : (system (Broadcast.library String) 0).Reachable s :=
    (TransitionSystem.run_of_replay hreplay).reachable (.init rfl)
  refine ⟨s, hreach, by rw [hsent, hrecent]; rfl, ?_⟩
  rw [(getLines_of_reachable hreach none).1, hrecent]
  rfl

/-- A follower has received lines that were sent since it subscribed, in their order, and all of
them up to those that wait for it when it has missed none. The lines that were sent are those of the
pumps. -/
theorem live_of_reachable (hreach : (system lib bufferSize).Reachable s) {k n : ℕ}
    {r : Receiver String} (hr : s.receivers.lookup k = some (r, n)) :
    r.got.Sublist ((s.sent.drop n).map LogLine.live) ∧
      (r.missed = 0 → r.got <+: (s.sent.drop n).map LogLine.live) ∧
      r.got.length + r.missed + (lib.tail s.ring.broadcastTx - r.next) = s.sent.length - n ∧
      ∀ i p, s.pumps.lookup i = some p → LogPump.chunks maxPumpChunkSize p.input =
        LogLine.ofPump i s.sent ++ p.phase.unsent ++
          LogPump.chunks maxPumpChunkSize p.unread := by
  have hinv := invariant hreach
  obtain ⟨log, hcarries, hall⟩ := hinv.live
  obtain ⟨hfollows, hsince, hle⟩ := hall hr
  have htake : (log.take r.next).drop r.start <+: log.drop r.start :=
    (List.take_prefix r.next log).drop r.start
  refine ⟨?_, fun hmissed => ?_, ?_, fun i p hp => (hinv.pumps.fits hp).input⟩
  · rw [← hsince]
    exact hfollows.got.trans htake.sublist
  · rw [← hsince, hfollows.got_eq hmissed]
    exact htake
  · have hlength := congrArg List.length hsince
    rw [List.length_drop, List.length_map, List.length_drop] at hlength
    have hstart := hfollows.start_le
    have hnext := hfollows.next_le
    have hmissed := hfollows.missed
    have htail := lib.tail_eq hcarries
    omega

/-- A follower that keeps up has received the line. -/
theorem live_of_greeting : ∃ s r, (system (Broadcast.library String) 0).Reachable s ∧
    s.receivers.lookup 7 = some (r, 0) ∧ r.got = [LogLine.live ⟨0, some "STDERR", [104, 105]⟩] := by
  obtain ⟨s, r, hreplay, hrecent, hr, hmissed, hsent, htail⟩ := replay_greeting
  have hreach : (system (Broadcast.library String) 0).Reachable s :=
    (TransitionSystem.run_of_replay hreplay).reachable (.init rfl)
  obtain ⟨-, hbegins, hlength, -⟩ := live_of_reachable hreach hr
  rw [hsent, hrecent] at hbegins hlength
  refine ⟨s, r, hreach, hr, (hbegins hmissed).eq_of_length ?_⟩
  simpa [hmissed, htail] using hlength

end ProgramLog

end Rsupervisord
