import LuaNode.Library.Runs
import LuaNode.Library.Text

/-!
# Terminal input

`ReadStream` of `tty.lua` over the native `TtyStream`. `resume` begins a read, and so does
`read_callback` once the listeners of 'data' have returned; both look at the flag `paused` only, and the
native `Pause` does nothing. A data event lasts from `completed` to `delivered` or `failed`: what the
listeners call are the events between. Nobody sets `_dont_read` or `_decoder`.
-/

namespace LuaNode.Tty

structure ReadStream where
  readable : Bool
  paused : Bool
  isRaw : Bool
  /-- `_handle` is not nil -/
  hasHandle : Bool
  /-- `m_pending_reads` of the native stream: the calls of `async_read_some` that have not
  completed -/
  pendingReads : ℕ
  /-- the listeners of 'data' are running -/
  delivering : Bool
  /-- since they have been called, `resume` has begun a read -/
  resumed : Bool
  deriving DecidableEq

inductive ReadEvent
  /-- `HandleReadSome`: the data, or `none` for an error -/
  | completed (data : Option Str)
  /-- the listeners of 'data' have returned -/
  | delivered
  /-- one of them has raised an error -/
  | failed
  | pause
  | resume
  | setRawMode (flag : Bool)
  | destroy
  deriving DecidableEq

namespace ReadStream

variable (s : ReadStream)

/-- After `__init`. -/
def opened : ReadStream where
  readable := true
  paused := true
  isRaw := false
  hasHandle := true
  pendingReads := 0
  delivering := false
  resumed := false

/-- `TtyStream::Read`. -/
def read : ReadStream := { s with pendingReads := s.pendingReads + 1 }

def indexesNil : Str := "attempt to index field '_handle' (a nil value)".toList

/-- `ReadStream:pause`, with the error it raises. -/
def pause : ReadStream × Option Str :=
  if s.paused then (s, none)
  else ({ s with paused := true }, if s.hasHandle then none else some indexesNil)

/-- `ReadStream:resume`, with the error it raises. -/
def resume : ReadStream × Option Str :=
  if s.readable = false then (s, some "Cannot resume() closed tty.ReadStream.".toList)
  else if s.paused = false then (s, none)
  else if s.hasHandle then
    ({ s with paused := false, resumed := true }.read, none)
  else ({ s with paused := false }, some indexesNil)

/-- `ReadStream:setRawMode`, with the error it raises. -/
def setRawMode (flag : Bool) : ReadStream × Option Str :=
  if s.hasHandle then ({ s with isRaw := flag }, none) else (s, some indexesNil)

/-- `ReadStream:destroy`, without the 'close' of the next tick. -/
def destroy : ReadStream :=
  if s.readable then { s with readable := false, hasHandle := false } else s

/-- `read_callback` up to the listeners of 'data'. At the end of the input `destroy` finds the stream
no longer readable, and leaves the handle open. -/
def readCallback : Option Str → ReadStream
  | none | some [] => { s with readable := false }.destroy
  | some (_ :: _) => { s with delivering := true, resumed := false }

/-- What `read_callback` does after the listeners. -/
def afterData : ReadStream :=
  if s.hasHandle = true ∧ s.paused = false then s.read else s

/-- A handler of the loop does not run within another; that of a closed handle calls nothing. -/
def step : ReadEvent → ReadStream
  | .completed data =>
    if s.pendingReads = 0 ∨ s.delivering = true then s
    else
      let s := { s with pendingReads := s.pendingReads - 1 }
      if s.hasHandle then s.readCallback data else s
  | .delivered => if s.delivering then { s with delivering := false }.afterData else s
  | .failed => { s with delivering := false }
  | .pause => s.pause.1
  | .resume => s.resume.1
  | .setRawMode flag => (s.setRawMode flag).1
  | .destroy => s.destroy

def OneReader : Prop := s.pendingReads ≤ 1

/-- A paused stream is resumed when no read is outstanding, and a data event within which it was
resumed ends with the stream paused (or closed). -/
def NoSecondRead : ReadEvent → Prop
  | .resume => s.readable = true → s.paused = true → s.hasHandle = true → s.pendingReads = 0
  | .delivered => s.delivering = true → s.resumed = true → s.hasHandle = true → s.paused = true
  | _ => True

/-- One reader, and within a data event that read is one that `resume` has begun. -/
structure Alternating : Prop where
  one : s.OneReader
  resumed : s.delivering = true → (s.pendingReads = 1 ↔ s.resumed = true)

variable {s}

theorem Alternating.pause (h : s.Alternating) : s.pause.1.Alternating := by
  unfold ReadStream.pause
  split_ifs
  · exact h
  · exact ⟨h.one, h.resumed⟩
  · exact ⟨h.one, h.resumed⟩

theorem Alternating.resume (h : s.Alternating) (hnone : s.NoSecondRead .resume) :
    s.resume.1.Alternating := by
  unfold ReadStream.resume
  split_ifs with hreadable hpaused hhandle
  · exact h
  · exact h
  · have hzero : s.pendingReads = 0 := hnone (by simpa using hreadable) (by simpa using hpaused) hhandle
    exact ⟨by simp [OneReader, read, hzero], by simp [read, hzero]⟩
  · exact ⟨h.one, h.resumed⟩

theorem Alternating.destroy (h : s.Alternating) : s.destroy.Alternating := by
  unfold ReadStream.destroy
  split_ifs
  · exact ⟨h.one, h.resumed⟩
  · exact h

theorem Alternating.completed (h : s.Alternating) (data : Option Str) :
    (s.step (.completed data)).Alternating := by
  have hone : s.pendingReads ≤ 1 := h.one
  simp only [step]
  split_ifs with hidle hhandle
  · exact h
  · have hzero : s.pendingReads - 1 = 0 := by omega
    have hquiet : { s with pendingReads := s.pendingReads - 1, readable := false }.Alternating :=
      ⟨by simp [OneReader, hzero], fun hdelivering => absurd hdelivering (not_or.mp hidle).2⟩
    rcases data with _ | (_ | ⟨byte, rest⟩)
    · exact hquiet.destroy
    · exact hquiet.destroy
    · exact ⟨by simp [OneReader, readCallback, hzero], by simp [readCallback, hzero]⟩
  · exact ⟨by simp only [OneReader]; omega,
      fun hdelivering => absurd hdelivering (not_or.mp hidle).2⟩

theorem Alternating.delivered (h : s.Alternating) (hnone : s.NoSecondRead .delivered) :
    (s.step .delivered).Alternating := by
  have hone : s.pendingReads ≤ 1 := h.one
  simp only [step, afterData]
  split_ifs with hdelivering hread
  · obtain ⟨hhandle, hpaused⟩ := hread
    have hresumed : ¬ s.resumed = true := by
      intro hresumed
      have := hnone hdelivering hresumed hhandle
      simp_all
    have hzero : s.pendingReads = 0 := by
      have := (h.resumed hdelivering).not.mpr hresumed
      omega
    exact ⟨by simp [OneReader, read, hzero], by simp [read]⟩
  · exact ⟨hone, by simp⟩
  · exact h

/-- Under the rule of `NoSecondRead` a step leaves one reader. -/
theorem Alternating.step (h : s.Alternating) {e : ReadEvent} (hnone : s.NoSecondRead e) :
    (s.step e).Alternating := by
  cases e with
  | completed data => exact h.completed data
  | delivered => exact h.delivered hnone
  | failed => exact ⟨h.one, by simp [ReadStream.step]⟩
  | pause => exact h.pause
  | resume => exact h.resume hnone
  | setRawMode flag =>
    simp only [ReadStream.step, ReadStream.setRawMode]
    split_ifs
    · exact ⟨h.one, h.resumed⟩
    · exact h
  | destroy => exact h.destroy

/-- A step that breaks the rule begins a second read. -/
theorem Alternating.noSecondRead (h : s.Alternating) {e : ReadEvent}
    (hone : (s.step e).OneReader) : s.NoSecondRead e := by
  cases e with
  | resume =>
    intro hreadable hpaused hhandle
    simpa [OneReader, ReadStream.step, ReadStream.resume, read, hreadable, hpaused, hhandle] using hone
  | delivered =>
    intro hdelivering hresumed hhandle
    have hpending : s.pendingReads = 1 := (h.resumed hdelivering).mpr hresumed
    by_contra hpaused
    have hpaused : s.paused = false := by simpa using hpaused
    simp [OneReader, ReadStream.step, afterData, read, hdelivering, hhandle, hpaused, hpending] at hone
  | _ => trivial

/-- At most one read is outstanding in every state of a run exactly when the run keeps the rule. -/
theorem one_reader_iff (es : List ReadEvent) :
    (∀ t ∈ statesOf step opened es, t.OneReader) ↔ Guarded step NoSecondRead opened es :=
  states_iff_guarded_within (I := Alternating) (p := fun _ => True) (fun _ h => h.one)
    (fun _ _ _ h hnone => h.step hnone) (fun _ _ _ h hone => h.noSecondRead hone)
    ⟨by simp [OneReader, opened], by simp [opened]⟩ (fun _ _ => trivial)

/-- A pause and a resume within one data event, as the completion of TAB makes them. -/
theorem one_reader_broken :
    ¬ ∀ (es : List ReadEvent), ∀ t ∈ statesOf step opened es, t.OneReader := by
  intro h
  have hone := h [.resume, .completed (some ['\t']), .pause, .resume, .delivered] _
    (run_mem_statesOf ..)
  exact absurd hone (by simp [OneReader]; decide)

end ReadStream

end LuaNode.Tty
