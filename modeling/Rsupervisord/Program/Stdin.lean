import Mathlib.Logic.Function.Basic
import Rsupervisord.Program.LifecycleInvariants
import Rsupervisord.Program.StdinWiring

/-!
# Standard input

`send_stdin` puts payloads into the bounded channel of the writer task that was published when the
call began; `spawn_stdin_writer` moves them through its own buffer into the pipe of its child.
Calls, writers and the actor take their steps in any order.

* `StdinPipe`, `StdinPipe.next`: a writer task with its channel and its pipe.
* `StdinWorld`, `StdinWorld.next`: the writers of all incarnations beside the actor.
* `StdinPipe.Carries`: what a writer has taken over from its channel, and what waits there.
* `StdinWorld.reliableFifo_of_reachable`: each pipe gets what was sent to its child, in order.
-/

namespace Rsupervisord

/-- `MAX_STDIN_BUFFER_BYTES`. -/
def maxStdinBufferBytes : ℕ := 64 * 1024

/-- The capacity of the channel of a writer. -/
def stdinChannelCapacity : ℕ := 16

/-- Where a writer task is. -/
inductive WriterPhase
  | looping
  /-- The drain behind the loop. -/
  | draining
  | finished
  deriving DecidableEq, Repr

/-- A writer task, its channel and the pipe of its child. -/
structure StdinPipe where
  /-- The bytes that the pipe has taken. -/
  written : List UInt8
  buffer : List UInt8
  /-- The payloads in the channel, oldest first. -/
  channel : List (List UInt8)
  phase : WriterPhase
  cancelToken : Bool
  deriving DecidableEq, Repr

/-- The steps of a writer task. -/
inductive WriterStep
  /-- The loop finds the token cancelled. -/
  | cancelled
  /-- The pipe takes `n` bytes. -/
  | write (n : ℕ)
  /-- The pipe is closed by its reader, or broken. -/
  | writeFailed
  /-- The channel has a payload or is closed. -/
  | recv
  /-- The pipe takes `n` bytes in the drain. -/
  | drain (n : ℕ)
  /-- The drain is done, has failed or ran out of time, or found the token cancelled. -/
  | drainEnd
  /-- The task is aborted after its token was cancelled. -/
  | abort
  deriving DecidableEq, Repr

/-- A call of `send_stdin` that has found a writer. -/
structure StdinCall where
  id : ℕ
  data : List UInt8
  /-- The incarnation whose writer the call has found. -/
  target : ℕ
  /-- The incarnation of the child when the call began. -/
  current : Option ℕ
  /-- How many payloads were accepted before the call began. -/
  before : ℕ
  deriving DecidableEq, Repr

namespace StdinPipe

/-- The writer of a new child. -/
def new : StdinPipe := ⟨[], [], [], .looping, false⟩

/-- The end of the task: the receiver is dropped with what is in the channel. -/
def finish (p : StdinPipe) : StdinPipe := { p with phase := .finished, channel := [] }

/-- Behind the loop the buffer is drained, if something is in it. -/
def leaveLoop (p : StdinPipe) : StdinPipe :=
  if p.buffer = [] then p.finish else { p with phase := .draining }

/-- The pipe takes the first `n` bytes of the buffer. -/
def advance (p : StdinPipe) (n : ℕ) : StdinPipe :=
  { p with written := p.written ++ p.buffer.take n, buffer := p.buffer.drop n }

/-- A step of `spawn_stdin_writer`, when it is enabled; `closed` tells that no sender is left. -/
def next (p : StdinPipe) (closed : Bool) : WriterStep → Option StdinPipe
  -- The select is biased: a cancelled token wins over both other branches.
  | .cancelled => if p.phase = .looping ∧ p.cancelToken then some p.finish else none
  | .write n =>
      if p.phase = .looping ∧ p.cancelToken = false ∧ 0 < n ∧ n ≤ p.buffer.length then
        some (p.advance n)
      else none
  | .writeFailed =>
      if p.phase = .looping ∧ p.cancelToken = false ∧ p.buffer ≠ [] then some p.leaveLoop else none
  | .recv =>
      -- Backpressure: nothing is received while the buffer has reached its limit.
      if p.phase = .looping ∧ p.cancelToken = false ∧ p.buffer.length < maxStdinBufferBytes then
        match p.channel with
        | chunk :: rest => some { p with buffer := p.buffer ++ chunk, channel := rest }
        | [] => if closed then some p.leaveLoop else none
      else none
  | .drain n =>
      if p.phase = .draining ∧ 0 < n ∧ n ≤ p.buffer.length then some (p.advance n) else none
  | .drainEnd => if p.phase = .draining then some p.finish else none
  | .abort => if p.cancelToken ∧ p.phase ≠ .finished then some p.finish else none

/-- The writer has taken over the first of the `calls`, all made while `i` was the current child;
the others wait in the channel while the receiver exists. -/
def Carries (i : ℕ) (calls : List StdinCall) (p : StdinPipe) : Prop :=
  ∃ taken waiting, calls = taken ++ waiting ∧ (∀ c ∈ taken, c.current = some i) ∧
    p.written ++ p.buffer = taken.flatMap StdinCall.data ∧
    (p.phase ≠ .finished → p.channel = waiting.map StdinCall.data) ∧
    (p.buffer = [] ∨ ∃ c ∈ taken, p.buffer.length < maxStdinBufferBytes + c.data.length)

variable {i : ℕ} {calls : List StdinCall} {p p' : StdinPipe}

/-! ## One writer -/

theorem carries_new (i : ℕ) : Carries i [] new :=
  ⟨[], [], rfl, fun _ hc => absurd hc List.not_mem_nil, rfl, fun _ => rfl, .inl rfl⟩

theorem Carries.finish (h : Carries i calls p) : Carries i calls p.finish := by
  obtain ⟨taken, waiting, hcalls, hcurrent, hdata, -, hbuffer⟩ := h
  exact ⟨taken, waiting, hcalls, hcurrent, hdata, fun hphase => absurd rfl hphase, hbuffer⟩

theorem Carries.leaveLoop (h : Carries i calls p) (hphase : p.phase = .looping) :
    Carries i calls p.leaveLoop := by
  unfold StdinPipe.leaveLoop
  split_ifs
  · exact h.finish
  · obtain ⟨taken, waiting, hcalls, hcurrent, hdata, hchannel, hbuffer⟩ := h
    refine ⟨taken, waiting, hcalls, hcurrent, hdata, fun _ => hchannel ?_, hbuffer⟩
    rw [hphase]
    decide

/-- The pipe takes its bytes from the front of the buffer. -/
theorem Carries.advance (h : Carries i calls p) (n : ℕ) : Carries i calls (p.advance n) := by
  obtain ⟨taken, waiting, hcalls, hcurrent, hdata, hchannel, hbuffer⟩ := h
  refine ⟨taken, waiting, hcalls, hcurrent, ?_, hchannel, ?_⟩
  · rw [← hdata, StdinPipe.advance, List.append_assoc, List.take_append_drop]
  · obtain hempty | ⟨c, hc, hlength⟩ := hbuffer
    · exact .inl (by rw [StdinPipe.advance, hempty, List.drop_nil])
    · refine .inr ⟨c, hc, Nat.lt_of_le_of_lt ?_ hlength⟩
      rw [StdinPipe.advance, List.length_drop]
      exact Nat.sub_le _ _

/-- The first payload of the channel goes to the end of the buffer. -/
theorem Carries.recv (h : Carries i calls p) {chunk : List UInt8} {rest : List (List UInt8)}
    (hchannel : p.channel = chunk :: rest) (hphase : p.phase = .looping)
    (hlength : p.buffer.length < maxStdinBufferBytes) (hcalls : ∀ c ∈ calls, c.current = some i) :
    Carries i calls { p with buffer := p.buffer ++ chunk, channel := rest } := by
  obtain ⟨taken, waiting, rfl, hcurrent, hdata, hwaiting, -⟩ := h
  have hwaiting := hwaiting (by rw [hphase]; decide)
  rw [hchannel] at hwaiting
  obtain ⟨call, waiting, rfl, rfl, rfl⟩ := List.map_eq_cons_iff.mp hwaiting.symm
  refine ⟨taken ++ [call], waiting, ?_, ?_, ?_, fun _ => rfl, .inr ⟨call, ?_, ?_⟩⟩
  · rw [List.append_assoc]
    rfl
  · intro c hc
    refine hcalls c ?_
    rw [List.mem_append, List.mem_cons]
    obtain hc | hc := List.mem_append.mp hc
    · exact .inl hc
    · exact .inr (.inl (List.mem_singleton.mp hc))
  · rw [List.flatMap_append, ← hdata, List.append_assoc, List.flatMap_singleton]
  · exact List.mem_append_right _ (List.mem_singleton_self _)
  · rw [List.length_append]
    exact Nat.add_lt_add_right hlength _

/-- A step of the writer. -/
theorem Carries.next (h : Carries i calls p)
    (hcalls : p.cancelToken = false → ∀ c ∈ calls, c.current = some i) {closed : Bool}
    {step : WriterStep} (hstep : p.next closed step = some p') :
    Carries i calls p' ∧ p'.cancelToken = p.cancelToken := by
  have hleave : p.leaveLoop.cancelToken = p.cancelToken := by
    unfold StdinPipe.leaveLoop
    split_ifs <;> rfl
  cases step with
  | write n | drain n =>
    simp only [StdinPipe.next] at hstep
    split at hstep
    · cases hstep
      exact ⟨h.advance n, rfl⟩
    · cases hstep
  | cancelled | drainEnd | abort =>
    simp only [StdinPipe.next] at hstep
    split at hstep
    · cases hstep
      exact ⟨h.finish, rfl⟩
    · cases hstep
  | writeFailed =>
    simp only [StdinPipe.next] at hstep
    split at hstep
    · next hcond =>
      cases hstep
      exact ⟨h.leaveLoop hcond.1, hleave⟩
    · cases hstep
  | recv =>
    simp only [StdinPipe.next] at hstep
    split at hstep
    · next hcond =>
      split at hstep
      · next hchannel =>
        cases hstep
        exact ⟨h.recv hchannel hcond.1 hcond.2.2 (hcalls hcond.2.1), rfl⟩
      · split at hstep
        · cases hstep
          exact ⟨h.leaveLoop hcond.1, hleave⟩
        · cases hstep
    · cases hstep

/-- A payload that the channel takes waits behind the others. -/
theorem Carries.accept (h : Carries i calls p) (hphase : p.phase ≠ .finished) (c : StdinCall) :
    Carries i (calls ++ [c]) { p with channel := p.channel ++ [c.data] } := by
  obtain ⟨taken, waiting, rfl, hcurrent, hdata, hwaiting, hbuffer⟩ := h
  refine ⟨taken, waiting ++ [c], List.append_assoc _ _ _, hcurrent, hdata, fun _ => ?_, hbuffer⟩
  rw [List.map_append, ← hwaiting hphase]
  rfl

end StdinPipe

/-- The actor of a program with the writers of its incarnations and the calls of `send_stdin`. -/
structure StdinWorld where
  actor : ProgramActor
  /-- The writer of each incarnation that has been given one. -/
  pipes : ℕ → Option StdinPipe
  /-- The calls that wait for room in their channel. -/
  pending : List StdinCall
  /-- The calls whose payload a channel has taken, in the order in which that happened. -/
  accepted : List StdinCall
  /-- The calls that have found a writer so far. -/
  calls : ℕ

namespace StdinWorld

/-- The steps of the actor, of the calls and of the writers. -/
inductive Label
  | actor (l : ProgramActor.Label)
  /-- `send_stdin` is called. -/
  | send (data : List UInt8)
  /-- The channel takes the payload of a call. -/
  | accept (id : ℕ)
  /-- A call runs out of time or finds its channel closed. -/
  | giveUp (id : ℕ)
  | writer (i : ℕ) (step : WriterStep)

/-- The incarnation of the current child. -/
def current (a : ProgramActor) : Option ℕ := a.currentChild.map RunningChild.incarnation

/-- The world behind a step of the actor: a child that it has installed gets a writer, if it has a
standard input pipe, and the token of a child that it has given up is cancelled. -/
def wire (w : StdinWorld) (b : ProgramActor) : StdinWorld :=
  { w with
    actor := b
    pipes := fun i =>
      let pipe :=
        if b.incarnation ≠ w.actor.incarnation ∧ b.stdinTx = some i then some .new else w.pipes i
      pipe.map fun p => if current b = some i then p else { p with cancelToken := true } }

/-- No sender of the writer `i` is left: none is published, and no call holds one. -/
def closed (w : StdinWorld) (i : ℕ) : Bool :=
  w.actor.stdinTx ≠ some i ∧ ∀ c ∈ w.pending, c.target ≠ i

/-- A step, when it is enabled. -/
def next (w : StdinWorld) : Label → Option StdinWorld
  | .actor l => (w.actor.next l).map w.wire
  | .send data =>
      match w.actor.stdinTx with
      | some i =>
          some { w with
            pending := w.pending ++ [⟨w.calls, data, i, current w.actor, w.accepted.length⟩]
            calls := w.calls + 1 }
      -- The program is not running.
      | none => some w
  | .accept id =>
      match w.pending.find? fun c => c.id = id with
      | none => none
      | some c =>
          match w.pipes c.target with
          | none => none
          | some p =>
              if p.phase ≠ .finished ∧ p.channel.length < stdinChannelCapacity then
                some { w with
                  pending := w.pending.filter fun c => c.id ≠ id
                  accepted := w.accepted ++ [c]
                  pipes := Function.update w.pipes c.target
                    (some { p with channel := p.channel ++ [c.data] }) }
              else none
  | .giveUp id => some { w with pending := w.pending.filter fun c => c.id ≠ id }
  | .writer i step =>
      match w.pipes i with
      | none => none
      | some p =>
          (p.next (w.closed i) step).map fun p' =>
            { w with pipes := Function.update w.pipes i (some p') }

/-- The program before its first start. -/
def init (config : ProgramConfig) : StdinWorld := ⟨.new config, fun _ => none, [], [], 0⟩

/-- The actor of a program with the configuration `config`, its writers and the calls. -/
def system (config : ProgramConfig) : TransitionSystem StdinWorld Label :=
    .ofNext (init config) next

/-- The calls that have been accepted for the child `i`. -/
def acceptedBy (w : StdinWorld) (i : ℕ) : List StdinCall := w.accepted.filter fun c => c.target = i

/-- The accepted calls that were made while `i` was the current child and went to it. -/
def sentTo (w : StdinWorld) (i : ℕ) : List StdinCall :=
  w.accepted.filter fun c => c.target = i ∧ c.current = some i

/-- What the writer `p` of the child `i` has done with the payloads. -/
structure ReliableFifo (w : StdinWorld) (i : ℕ) (p : StdinPipe) : Prop where
  /-- The pipe has got a beginning of what was sent while the child was the current one. -/
  written : p.written <+: (w.sentTo i).flatMap StdinCall.data
  /-- Each payload is accepted once. -/
  once : (w.accepted.map StdinCall.id).Nodup
  /-- A payload whose call began when others were accepted comes after them. -/
  ordered : ∀ (n : ℕ) (c : StdinCall), w.accepted[n]? = some c → c.before ≤ n
  /-- No payload goes to two children. -/
  isolated : ∀ j, j ≠ i → ∀ c ∈ w.sentTo j, c ∉ w.acceptedBy i
  /-- The buffer holds less than its limit and one payload. -/
  bounded : p.buffer = [] ∨
    ∃ c ∈ w.sentTo i, p.buffer.length < maxStdinBufferBytes + c.data.length
  /-- While the writer is in its loop, nothing that was accepted is lost. -/
  complete : p.phase = .looping →
    p.written ++ p.buffer ++ p.channel.flatten = (w.acceptedBy i).flatMap StdinCall.data

/-- The invariant: numbers of calls and of incarnations are fresh, a writer that is not cancelled is
that of the current child and its calls were made to it, and each writer carries its calls. -/
structure Consistent (w : StdinWorld) : Prop where
  ids : ((w.pending ++ w.accepted).map StdinCall.id).Nodup
  fresh : ∀ c ∈ w.pending ++ w.accepted, c.id < w.calls
  known : ∀ c ∈ w.pending ++ w.accepted, c.target ≤ w.actor.incarnation
  published : ∀ i, w.actor.stdinTx = some i → i ≤ w.actor.incarnation
  piped : ∀ i p, w.pipes i = some p → i ≤ w.actor.incarnation
  live : ∀ i p, w.pipes i = some p → p.cancelToken = false → current w.actor = some i
  sent : ∀ i p, w.pipes i = some p → p.cancelToken = false →
    ∀ c ∈ w.pending ++ w.accepted, c.target = i → c.current = some i
  begun : ∀ c ∈ w.pending, c.before ≤ w.accepted.length
  ordered : ∀ (n : ℕ) (c : StdinCall), w.accepted[n]? = some c → c.before ≤ n
  carries : ∀ i p, w.pipes i = some p → p.Carries i (w.acceptedBy i)

variable {config : ProgramConfig} {w w' : StdinWorld} {i : ℕ} {p : StdinPipe}

theorem consistent_init (config : ProgramConfig) : Consistent (init config) where
  ids := List.nodup_nil
  fresh c hc := absurd hc List.not_mem_nil
  known c hc := absurd hc List.not_mem_nil
  published i hi := by cases hi
  piped i p hp := by cases hp
  live i p hp := by cases hp
  sent i p hp := by cases hp
  begun c hc := absurd hc List.not_mem_nil
  ordered n c hc := by cases hc
  carries i p hp := by cases hp

/-- The writers of the world behind a step of the actor. -/
theorem pipes_wire {b : ProgramActor} (h : (w.wire b).pipes i = some p) :
    ∃ q, p = (if current b = some i then q else { q with cancelToken := true }) ∧
      (b.incarnation ≠ w.actor.incarnation ∧ b.stdinTx = some i ∧ q = .new ∨
        w.pipes i = some q) := by
  simp only [wire, Option.map_eq_some_iff] at h
  obtain ⟨q, hq, rfl⟩ := h
  refine ⟨q, rfl, ?_⟩
  split at hq
  · next hnew => exact .inl ⟨hnew.1, hnew.2, (Option.some.inj hq).symm⟩
  · exact .inr hq

/-- A step of the actor. -/
theorem Consistent.actor (h : Consistent w) {l : ProgramActor.Label} {b : ProgramActor}
    (hstep : w.actor.next l = some b) : Consistent (w.wire b) := by
  have hwires := ProgramActor.wires_of_step hstep
  have hmono : w.actor.incarnation ≤ b.incarnation := by
    obtain ⟨hinc, -⟩ | ⟨hinc, -⟩ := hwires <;> omega
  -- A writer that is published by this step is that of the next incarnation.
  have hnext : ∀ i, b.incarnation ≠ w.actor.incarnation → b.stdinTx = some i →
      i = w.actor.incarnation + 1 := by
    intro i hne htx
    obtain ⟨hinc, -⟩ | ⟨-, htx' | htx'⟩ := hwires
    · exact absurd hinc hne
    · cases htx'.symm.trans htx
    · exact Option.some.inj (htx.symm.trans htx')
  have hpublished : ∀ i, b.stdinTx = some i → i ≤ b.incarnation := by
    intro i htx
    obtain ⟨-, htx' | htx'⟩ | ⟨hinc, htx' | htx'⟩ := hwires
    · exact (h.published i (htx'.symm.trans htx)).trans hmono
    · cases htx'.symm.trans htx
    · cases htx'.symm.trans htx
    · rw [hinc, Option.some.inj (htx.symm.trans htx')]
  have hcancelled : ∀ i (q : StdinPipe),
      (if current b = some i then q else { q with cancelToken := true }).cancelToken = false →
        current b = some i ∧ q.cancelToken = false := by
    intro i q htoken
    split at htoken
    · next hcurrent => exact ⟨hcurrent, htoken⟩
    · cases htoken
  refine ⟨h.ids, h.fresh, fun c hc => (h.known c hc).trans hmono, hpublished, ?_, ?_, ?_, h.begun,
    h.ordered, ?_⟩
  · intro i p hp
    obtain ⟨q, -, ⟨-, htx, -⟩ | hq⟩ := pipes_wire hp
    · exact hpublished i htx
    · exact (h.piped i q hq).trans hmono
  · intro i p hp htoken
    obtain ⟨q, rfl, -⟩ := pipes_wire hp
    exact (hcancelled i q htoken).1
  · intro i p hp htoken c hc htarget
    obtain ⟨q, rfl, ⟨hne, htx, -⟩ | hq⟩ := pipes_wire hp
    · -- No call can have found the writer before it was published.
      have hle := h.known c hc
      have hinc := hnext i hne htx
      omega
    · exact h.sent i q hq (hcancelled i q htoken).2 c hc htarget
  · intro i p hp
    obtain ⟨q, rfl, hq⟩ := pipes_wire hp
    have hcarries : q.Carries i (w.acceptedBy i) := by
      obtain ⟨hne, htx, rfl⟩ | hq := hq
      · have hnone : w.acceptedBy i = [] := by
          refine List.filter_eq_nil_iff.mpr fun c hc htarget => ?_
          have hle := h.known c (List.mem_append_right _ hc)
          have hinc := hnext i hne htx
          have htarget : c.target = i := of_decide_eq_true htarget
          omega
        rw [hnone]
        exact StdinPipe.carries_new i
      · exact h.carries i q hq
    split
    · exact hcarries
    · exact hcarries

/-- A call that finds a writer. -/
theorem Consistent.send (h : Consistent w) (data : List UInt8) (htx : w.actor.stdinTx = some i) :
    Consistent { w with
      pending := w.pending ++ [⟨w.calls, data, i, current w.actor, w.accepted.length⟩]
      calls := w.calls + 1 } := by
  have hcalls : ∀ {P : StdinCall → Prop}, P ⟨w.calls, data, i, current w.actor, w.accepted.length⟩ →
      (∀ c ∈ w.pending ++ w.accepted, P c) →
        ∀ c ∈ (w.pending ++ [⟨w.calls, data, i, current w.actor, w.accepted.length⟩]) ++ w.accepted,
          P c := by
    intro P hcall hothers c hc
    rw [List.append_assoc, List.singleton_append, List.mem_append, List.mem_cons] at hc
    obtain hc | rfl | hc := hc
    · exact hothers c (List.mem_append_left _ hc)
    · exact hcall
    · exact hothers c (List.mem_append_right _ hc)
  refine ⟨?_, ?_, ?_, h.published, h.piped, h.live, ?_, ?_, h.ordered, h.carries⟩
  · rw [List.append_assoc, List.singleton_append, List.map_append, List.map_cons, List.nodup_middle,
      ← List.map_append, List.nodup_cons]
    refine ⟨fun hmem => ?_, h.ids⟩
    obtain ⟨c, hc, hid⟩ := List.mem_map.mp hmem
    exact absurd hid (Nat.ne_of_lt (h.fresh c hc))
  · exact hcalls (Nat.lt_succ_self _) fun c hc => (h.fresh c hc).trans (Nat.lt_succ_self _)
  · exact hcalls (h.published i htx) h.known
  · intro j p hp htoken
    -- The token is not cancelled, so the writer is that of the current child.
    exact hcalls (fun htarget => h.live j p hp htoken) (h.sent j p hp htoken)
  · intro c hc
    obtain hc | hc := List.mem_append.mp hc
    · exact h.begun c hc
    · rw [List.mem_singleton.mp hc]

/-- Calls that are given up. -/
theorem Consistent.filter (h : Consistent w) (keep : StdinCall → Bool) :
    Consistent { w with pending := w.pending.filter keep } := by
  have hsub : (w.pending.filter keep ++ w.accepted).Sublist (w.pending ++ w.accepted) :=
    List.filter_sublist.append_right _
  exact ⟨h.ids.sublist (hsub.map _), fun c hc => h.fresh c (hsub.mem hc),
    fun c hc => h.known c (hsub.mem hc), h.published, h.piped, h.live,
    fun i p hp htoken c hc => h.sent i p hp htoken c (hsub.mem hc),
    fun c hc => h.begun c (List.mem_of_mem_filter hc), h.ordered, h.carries⟩

/-- A channel takes the payload of a call. -/
theorem Consistent.accept (h : Consistent w) {c : StdinCall} (hc : c ∈ w.pending)
    (hp : w.pipes c.target = some p) (hphase : p.phase ≠ .finished) :
    Consistent { w with
      pending := w.pending.filter fun d => d.id ≠ c.id
      accepted := w.accepted ++ [c]
      pipes := Function.update w.pipes c.target
        (some { p with channel := p.channel ++ [c.data] }) } := by
  have hmem : ∀ d ∈ (w.pending.filter fun d => d.id ≠ c.id) ++ (w.accepted ++ [c]),
      d ∈ w.pending ++ w.accepted := by
    intro d hd
    rw [List.mem_append, List.mem_append, List.mem_singleton] at hd
    obtain hd | hd | rfl := hd
    · exact List.mem_append_left _ (List.mem_of_mem_filter hd)
    · exact List.mem_append_right _ hd
    · exact List.mem_append_left _ hc
  -- The writer of another incarnation is as it was, that of this one differs in its channel.
  have hpipes : ∀ {i q}, Function.update w.pipes c.target
      (some { p with channel := p.channel ++ [c.data] }) i = some q →
        ∃ q₀, w.pipes i = some q₀ ∧ q₀.cancelToken = q.cancelToken ∧
          (i = c.target ∧ q₀ = p ∧ q = { p with channel := p.channel ++ [c.data] } ∨
            i ≠ c.target ∧ q₀ = q) := by
    intro i q hq
    by_cases hi : i = c.target
    · subst hi
      rw [Function.update_self] at hq
      cases hq
      exact ⟨p, hp, rfl, .inl ⟨rfl, rfl, rfl⟩⟩
    · rw [Function.update_of_ne hi] at hq
      exact ⟨q, hq, rfl, .inr ⟨hi, rfl⟩⟩
  refine ⟨?_, fun d hd => h.fresh d (hmem d hd), fun d hd => h.known d (hmem d hd), h.published,
    ?_, ?_, ?_, ?_, ?_, ?_⟩
  · rw [← List.append_assoc, List.map_append, List.map_singleton, List.nodup_append]
    refine ⟨h.ids.sublist ((List.filter_sublist.append_right _).map _), List.nodup_singleton _, ?_⟩
    rintro _ hid _ hid' rfl
    rw [List.mem_singleton] at hid'
    obtain ⟨d, hd, hid⟩ := List.mem_map.mp hid
    have hsame : d.id = c.id := hid.trans hid'
    obtain hd | hd := List.mem_append.mp hd
    · exact of_decide_eq_true (List.mem_filter.mp hd).2 hsame
    · have hids := h.ids
      rw [List.map_append] at hids
      exact List.disjoint_of_nodup_append hids (List.mem_map_of_mem hc)
        (hsame ▸ List.mem_map_of_mem hd)
  · intro i q hq
    obtain ⟨q₀, hq₀, -⟩ := hpipes hq
    exact h.piped i q₀ hq₀
  · intro i q hq htoken
    obtain ⟨q₀, hq₀, hsame, -⟩ := hpipes hq
    exact h.live i q₀ hq₀ (hsame.trans htoken)
  · intro i q hq htoken d hd
    obtain ⟨q₀, hq₀, hsame, -⟩ := hpipes hq
    exact h.sent i q₀ hq₀ (hsame.trans htoken) d (hmem d hd)
  · intro d hd
    rw [List.length_append]
    exact (h.begun d (List.mem_of_mem_filter hd)).trans (Nat.le_add_right _ _)
  · intro n d hd
    obtain hlt | hge := Nat.lt_or_ge n w.accepted.length
    · rw [List.getElem?_append_left hlt] at hd
      exact h.ordered n d hd
    · rw [List.getElem?_append_right hge] at hd
      rw [List.mem_singleton.mp (List.mem_of_getElem? hd)]
      exact (h.begun c hc).trans hge
  · intro i q hq
    obtain ⟨q₀, hq₀, -, ⟨rfl, rfl, rfl⟩ | ⟨hi, rfl⟩⟩ := hpipes hq
    · have hcarries := (h.carries _ _ hp).accept hphase c
      rw [acceptedBy, List.filter_append]
      simpa [acceptedBy] using hcarries
    · have hcarries := h.carries i q₀ hq₀
      rw [acceptedBy, List.filter_append]
      simpa [acceptedBy, Ne.symm hi] using hcarries

/-- A step of a writer. -/
theorem Consistent.writer (h : Consistent w) {p' : StdinPipe} {closed : Bool} {step : WriterStep}
    (hp : w.pipes i = some p) (hstep : p.next closed step = some p') :
    Consistent { w with pipes := Function.update w.pipes i (some p') } := by
  have hcalls : p.cancelToken = false → ∀ c ∈ w.acceptedBy i, c.current = some i := by
    intro htoken c hc
    obtain ⟨hc, htarget⟩ := List.mem_filter.mp hc
    exact h.sent i p hp htoken c (List.mem_append_right _ hc) (of_decide_eq_true htarget)
  obtain ⟨hcarries, htoken⟩ := (h.carries i p hp).next hcalls hstep
  have hpipes : ∀ {j q}, Function.update w.pipes i (some p') j = some q →
      ∃ q₀, w.pipes j = some q₀ ∧ q₀.cancelToken = q.cancelToken ∧
      q.Carries j (w.acceptedBy j) := by
    intro j q hq
    by_cases hj : j = i
    · subst hj
      rw [Function.update_self] at hq
      cases hq
      exact ⟨p, hp, htoken.symm, hcarries⟩
    · rw [Function.update_of_ne hj] at hq
      exact ⟨q, hq, rfl, h.carries j q hq⟩
  refine ⟨h.ids, h.fresh, h.known, h.published, ?_, ?_, ?_, h.begun, h.ordered, ?_⟩
  · intro j q hq
    obtain ⟨q₀, hq₀, -⟩ := hpipes hq
    exact h.piped j q₀ hq₀
  · intro j q hq htoken
    obtain ⟨q₀, hq₀, hsame, -⟩ := hpipes hq
    exact h.live j q₀ hq₀ (hsame.trans htoken)
  · intro j q hq htoken
    obtain ⟨q₀, hq₀, hsame, -⟩ := hpipes hq
    exact h.sent j q₀ hq₀ (hsame.trans htoken)
  · intro j q hq
    obtain ⟨-, -, -, hcarries⟩ := hpipes hq
    exact hcarries

theorem Consistent.step (h : Consistent w) {l : Label} (hstep : w.next l = some w') :
    Consistent w' := by
  cases l with
  | actor l =>
    simp only [next, Option.map_eq_some_iff] at hstep
    obtain ⟨b, hb, rfl⟩ := hstep
    exact h.actor hb
  | send data =>
    simp only [next] at hstep
    split at hstep
    · next htx =>
      cases hstep
      exact h.send data htx
    · cases hstep
      exact h
  | accept id =>
    simp only [next] at hstep
    split at hstep
    · cases hstep
    · next c hfind =>
      split at hstep
      · cases hstep
      · next p hp =>
        split at hstep
        · next hroom =>
          cases hstep
          obtain rfl : c.id = id := by simpa using List.find?_some hfind
          exact h.accept (List.mem_of_find?_eq_some hfind) hp hroom.1
        · cases hstep
  | giveUp id =>
    cases hstep
    exact h.filter _
  | writer i step =>
    simp only [next] at hstep
    split at hstep
    · cases hstep
    · next p hp =>
      obtain ⟨p', hp', rfl⟩ := Option.map_eq_some_iff.mp hstep
      exact h.writer hp hp'

theorem consistent_of_reachable (h : (system config).Reachable w) : Consistent w := by
  refine h.invariant ?_ ?_
  · rintro _ rfl
    exact consistent_init config
  · exact fun _ _ _ _ hconsistent _ hstep => hconsistent.step hstep

/-- In every state each writer has given its pipe a beginning of what was sent to its child while
that was the current one; nothing goes to two children or twice, and the buffer stays bounded. -/
theorem reliableFifo_of_reachable (h : (system config).Reachable w) (hp : w.pipes i = some p) :
    w.ReliableFifo i p := by
  have hw := consistent_of_reachable h
  obtain ⟨taken, waiting, hcalls, hcurrent, hdata, hchannel, hbuffer⟩ := hw.carries i p hp
  -- What the writer has taken over is the beginning of what was sent to the child.
  have hsent : w.sentTo i = taken ++ waiting.filter fun c => c.current = some i := by
    have hfilter : w.sentTo i = (w.acceptedBy i).filter fun c => c.current = some i := by
      rw [acceptedBy, List.filter_filter, sentTo]
      refine List.filter_congr fun c _ => ?_
      rw [Bool.decide_and, Bool.and_comm]
    rw [hfilter, hcalls, List.filter_append, List.filter_eq_self.mpr]
    exact fun c hc => decide_eq_true (hcurrent c hc)
  have hids := hw.ids
  rw [List.map_append] at hids
  refine ⟨?_, (List.nodup_append.mp hids).2.1, hw.ordered, ?_, ?_, ?_⟩
  · rw [hsent, List.flatMap_append, ← hdata, List.append_assoc]
    exact List.prefix_append _ _
  · intro j hj c hc hc'
    obtain ⟨-, htarget⟩ := List.mem_filter.mp hc
    obtain ⟨-, htarget'⟩ := List.mem_filter.mp hc'
    exact hj ((of_decide_eq_true htarget).1.symm.trans (of_decide_eq_true htarget'))
  · refine hbuffer.imp_right fun ⟨c, hc, hlength⟩ => ⟨c, ?_, hlength⟩
    rw [hsent]
    exact List.mem_append_left _ hc
  · intro hphase
    rw [hcalls, List.flatMap_append, ← hdata, hchannel (by rw [hphase]; decide), List.flatMap]

/-- The theorem at work: a child has taken a part of its input. -/
theorem reliableFifo_of_partial_write :
    ∃ w p, (system (.new "cat" "cat")).Reachable w ∧ w.pipes 1 = some p ∧ p.written = [1, 2] ∧
      w.ReliableFifo 1 p := by
  obtain ⟨w, hreach, hpipe⟩ := TransitionSystem.exists_reachableWhile (G := fun _ _ => True)
    (i := init (.new "cat" "cat")) (f := next)
    (fun w => w.pipes 1 = some ⟨[1, 2], [3], [], .looping, false⟩)
    [.actor (.iterate (.command .start ⟨.graceful, .succeeding 7, .ok ()⟩)), .send [1, 2, 3],
      .accept 0, .writer 1 .recv, .writer 1 (.write 2)] (by decide +kernel)
  exact ⟨w, _, hreach, hpipe, rfl, reliableFifo_of_reachable hreach hpipe⟩

end StdinWorld

end Rsupervisord
