import IqrfDaemon.Scheduler.Index

/-!
# Time points of 64 bits

A time point of `system_clock` counts nanoseconds in an `int64_t`, and the sums of
`getNext` and of `nextWakeupAndUnlock` wrap in it.  `getNext` over the integers
computes the same as long as its sums are in range; with a long period they are
not, and the timer takes the next time for one that is over.
-/

namespace IqrfDaemon.Scheduler

def Representable (n : ℤ) : Prop := -2 ^ 63 ≤ n ∧ n < 2 ^ 63

instance (n : ℤ) : Decidable (Representable n) := inferInstanceAs (Decidable (_ ∧ _))

/-- The value of a 64-bit sum whose exact value is `n`. -/
def wrap (n : ℤ) : ℤ := (n + 2 ^ 63) % 2 ^ 64 - 2 ^ 63

theorem wrap_of_representable {n : ℤ} (h : Representable n) : wrap n = n := by
  obtain ⟨hlo, hhi⟩ := h
  rw [wrap]
  omega

theorem wrap_of_overflow {n : ℤ} (hlo : 2 ^ 63 ≤ n) (hhi : n < 2 ^ 64) : wrap n = n - 2 ^ 64 := by
  rw [wrap]
  omega

namespace ScheduleRecord

/-- `getNext` with sums of 64 bits. -/
def getNext64 (r : ScheduleRecord) (actualTimePoint : ℤ) (actualTime : Tm) :
    ℤ × ScheduleRecord :=
  if r.exactTime then (r.startTime, r)
  else if !r.periodic then
    (wrap (actualTimePoint + Scheduler.seconds (remainingSeconds r.vsec actualTime.tm_sec)), r)
  else if r.started then (wrap (actualTimePoint + Scheduler.seconds r.period), r)
  else (r.startTime, r.setStarted true)

/-- The seconds from a firing to the next one. -/
def wait (r : ScheduleRecord) (actualTime : Tm) : ℤ :=
  if r.periodic then r.period else remainingSeconds r.vsec actualTime.tm_sec

/-- Fired at `timePoint`, the record has a next time, and this is not over in 64 bits. -/
def recursAt (r : ScheduleRecord) (timePoint : ℤ) (timeStr : Tm) : Prop :=
  r.exactTime = false ∧ timePoint ≤ wrap (timePoint + Scheduler.seconds (r.wait timeStr))

instance (r : ScheduleRecord) (timePoint : ℤ) (timeStr : Tm) :
    Decidable (r.recursAt timePoint timeStr) := inferInstanceAs (Decidable (_ ∧ _))

variable {r : ScheduleRecord} {timePoint : ℤ} {timeStr : Tm}

/-- For a wait that has its nanoseconds in range: it is not negative, and neither it nor
the clock is too large for their sum. -/
theorem recursAt_iff (hpoint : 0 ≤ timePoint ∧ timePoint < 2 ^ 63)
    (hwait : Representable (Scheduler.seconds (r.wait timeStr))) :
    r.recursAt timePoint timeStr ↔
      r.exactTime = false ∧ 0 ≤ r.wait timeStr ∧
        timePoint + Scheduler.seconds (r.wait timeStr) < 2 ^ 63 := by
  obtain ⟨hlo, hhi⟩ := hwait
  have hsign : 0 ≤ r.wait timeStr ↔ 0 ≤ Scheduler.seconds (r.wait timeStr) := by
    rw [Scheduler.seconds]
    omega
  rw [recursAt, hsign]
  refine and_congr_right fun _ ↦ ?_
  rcases lt_or_ge (timePoint + Scheduler.seconds (r.wait timeStr)) (2 ^ 63) with hfits | hover
  · rw [wrap_of_representable ⟨by omega, hfits⟩]
    omega
  · rw [wrap_of_overflow hover (by omega)]
    omega

theorem getNext64_eq (h : Representable (r.getNext timePoint timeStr).1) :
    r.getNext64 timePoint timeStr = r.getNext timePoint timeStr := by
  unfold getNext at *
  unfold getNext64
  split_ifs at * with hexact hcron hstarted
  · rfl
  · rw [wrap_of_representable h]
  · rw [wrap_of_representable h]
  · rfl

end ScheduleRecord

namespace Store

theorem lawfulNext_getNext64 : LawfulNext ScheduleRecord.getNext64 where
  record r timePoint timeStr := by
    unfold ScheduleRecord.getNext64
    split_ifs
    · exact ⟨r.started, rfl⟩
    · exact ⟨r.started, rfl⟩
    · exact ⟨r.started, rfl⟩
    · exact ⟨true, rfl⟩
  started r timePoint timeStr hexact hperiodic := by
    unfold ScheduleRecord.getNext64 at *
    split_ifs at * with h₁ h₂ h₃
    · exact absurd h₁ (by simpa using hexact)
    · exact absurd hperiodic (by simpa using h₂)
    · exact h₃
    · rfl
  exact r timePoint timeStr hexact := by simp [ScheduleRecord.getNext64, hexact]

def addScheduleRecords64 (env : Env) (choices : List (ℤ × List ℤ)) (rs : List ScheduleRecord)
    (s : Store) : Option Store :=
  addScheduleRecordsWith ScheduleRecord.getNext64 env choices rs s

def timerSection64 (s : Store) (timePoint : ℤ) (timeStr : Tm) : Store :=
  s.timerSectionWith ScheduleRecord.getNext64 timePoint timeStr

/-- `nextWakeupAndUnlock` with a sum of 64 bits. -/
def nextWakeup64 (s : Store) (timePoint : ℤ) : ℤ :=
  match s.byTime.entries.head? with
  | none => wrap (timePoint + seconds 10)
  | some e => e.1

variable {s : Store} {timePoint : ℤ} {timeStr : Tm} {e : ℤ × ℕ}

theorem Wf.le_getNext64_iff (hs : s.Wf) (hdue : s.due timePoint = some e) (timeStr : Tm) :
    timePoint ≤ ((s.record e.2).getNext64 timePoint timeStr).1 ↔
      (s.record e.2).recursAt timePoint timeStr := by
  cases hexact : (s.record e.2).exactTime with
  | true =>
      have hlt : ((s.record e.2).getNext64 timePoint timeStr).1 < timePoint :=
        hs.next_lt_of_exact lawfulNext_getNext64 hdue hexact
      refine iff_of_false (not_le.mpr hlt) fun hrecurs ↦ ?_
      rw [hrecurs.1] at hexact
      cases hexact
  | false =>
      cases hperiodic : (s.record e.2).periodic with
      | true =>
          have hstarted := hs.started_of_due hdue hexact hperiodic
          simp [ScheduleRecord.getNext64, ScheduleRecord.recursAt, ScheduleRecord.wait, hexact,
            hperiodic, hstarted]
      | false =>
          simp [ScheduleRecord.getNext64, ScheduleRecord.recursAt, ScheduleRecord.wait, hexact,
            hperiodic]

/-- A due record stays pending if and only if it recurs at that time. -/
theorem Wf.pending_timerSection64 (hs : s.Wf) (hdue : s.due timePoint = some e) (k : ℕ) :
    (s.timerSection64 timePoint timeStr).pending k ↔
      s.pending k ∧ (k = e.2 → (s.record e.2).recursAt timePoint timeStr) := by
  rw [← hs.le_getNext64_iff hdue timeStr]
  exact hs.pending_timerSectionWith hdue k

end Store

end IqrfDaemon.Scheduler
