import IqrfDaemon.Calendar.ServedOnce
import IqrfDaemon.Scheduler.Pending
import IqrfDaemon.Scheduler.Wakeup

/-!
# Cron records under bounded latency

The next time of a cron record is computed from the wake-up, so the part of a
second by which the timer is late is carried from firing to firing, and the
pattern is checked against the second of the wake-up.  Every due second gets its
one push as long as the wake-up falls into the second it was planned for, or
into the following one where that makes no difference.
-/

namespace IqrfDaemon.Scheduler

open Json Container Transition Calendar

/-! ## The seconds of a pattern -/

/-- The seconds a cron record is planned for; a star stands for second zero. -/
def ScheduleRecord.secondsSet (r : ScheduleRecord) : List ℤ :=
  if r.vsec.headD 0 < 0 then [0] else r.vsec

/-- Of a sorted list, `find?` gives the least element above a bound. -/
theorem find?_least {vec : List ℤ} (hsorted : vec.Pairwise (· ≤ ·)) {a v : ℤ}
    (hfind : (vec.find? fun u ↦ a < u) = some v) : ∀ w ∈ vec, a < w → v ≤ w := by
  induction vec with
  | nil => simp at hfind
  | cons u rest ih =>
      obtain ⟨hhead, htail⟩ := List.pairwise_cons.mp hsorted
      intro w hw haw
      by_cases hu : a < u
      · obtain rfl : u = v := by simpa [hu] using hfind
        rcases List.mem_cons.mp hw with rfl | hw
        · exact le_rfl
        · exact hhead w hw
      · rw [List.find?_cons_of_neg (by simpa using hu)] at hfind
        rcases List.mem_cons.mp hw with rfl | hw
        · exact absurd haw hu
        · exact ih htail hfind w hw haw

/-- `d` seconds after second `t` comes the first second of the set. -/
structure NextIn (set : List ℤ) (t d : ℤ) : Prop where
  pos : 0 < d
  mem : (t + d) % 60 ∈ set
  none_before : ∀ u, t < u → u < t + d → u % 60 ∉ set

/-- The least second above that of `t` comes in the same minute. -/
theorem NextIn.sameMinute {set : List ℤ} {t v : ℤ} (hmem : v ∈ set) (hv : t % 60 < v)
    (hv59 : v ≤ 59) (hleast : ∀ w ∈ set, t % 60 < w → v ≤ w) : NextIn set t (v - t % 60) where
  pos := by omega
  mem := by
    have heq : (t + (v - t % 60)) % 60 = v := by omega
    rwa [heq]
  none_before u hlt hgt hu := by
    have hle := hleast (u % 60) hu (by omega)
    omega

/-- If there is none, the least second of all comes in the next minute. -/
theorem NextIn.nextMinute {set : List ℤ} {t v : ℤ} (hmem : v ∈ set) (hv : 0 ≤ v)
    (hleast : ∀ w ∈ set, v ≤ w) (hall : ∀ w ∈ set, w ≤ t % 60) :
    NextIn set t (v - t % 60 + 60) := by
  have hv' := hall v hmem
  refine ⟨by omega, ?_, fun u hlt hgt hu ↦ ?_⟩
  · have heq : (t + (v - t % 60 + 60)) % 60 = v := by omega
    rwa [heq]
  · have hle := hleast (u % 60) hu
    have hge := hall (u % 60) hu
    omega

theorem remainingSeconds_of_lt {vsec : List ℤ} {asec v : ℤ}
    (hclosest : ScheduleRecord.closestSecond vsec asec = v) (hv : asec < v) :
    ScheduleRecord.remainingSeconds vsec asec = v - asec := by
  simp only [ScheduleRecord.remainingSeconds, hclosest, if_neg (not_le.mpr hv)]

theorem remainingSeconds_of_le {vsec : List ℤ} {asec v : ℤ}
    (hclosest : ScheduleRecord.closestSecond vsec asec = v) (hv : v ≤ asec) :
    ScheduleRecord.remainingSeconds vsec asec = v - asec + 60 := by
  simp only [ScheduleRecord.remainingSeconds, hclosest, if_pos hv]

/-- The remaining seconds lead to the first second of the set after second `t`. -/
theorem remainingSeconds_spec {r : ScheduleRecord} (hcron : r.isCron) (t : ℤ) :
    NextIn r.secondsSet t (ScheduleRecord.remainingSeconds r.vsec (t % 60)) := by
  have hmod : 0 ≤ t % 60 ∧ t % 60 < 60 := by omega
  rcases r.seconds_ok hcron.1 hcron.2 with hstar | ⟨hne, hsorted, hrange⟩
  · have hset : r.secondsSet = [0] := by simp [ScheduleRecord.secondsSet, hstar]
    have hclosest : ScheduleRecord.closestSecond r.vsec (t % 60) = 0 := by
      simp [ScheduleRecord.closestSecond, hstar]
    rw [hset, remainingSeconds_of_le hclosest hmod.1]
    exact .nextMinute (List.mem_singleton_self 0) le_rfl (by simp) (by simpa using hmod.1)
  · obtain ⟨head, rest, hvec⟩ := List.exists_cons_of_ne_nil hne
    have hhead : 0 ≤ head ∧ head ≤ 59 := hrange head (by simp [hvec])
    have hmin : ∀ w ∈ r.vsec, head ≤ w := by
      intro w hw
      rw [hvec] at hw hsorted
      rcases List.mem_cons.mp hw with rfl | hw
      · exact le_rfl
      · exact (List.pairwise_cons.mp hsorted).1 w hw
    have hset : r.secondsSet = r.vsec := by
      simp [ScheduleRecord.secondsSet, hvec, hhead.1]
    have hclosest : ScheduleRecord.closestSecond r.vsec (t % 60) =
        (r.vsec.find? fun sec ↦ t % 60 < sec).getD head := by
      simp [ScheduleRecord.closestSecond, hvec, hhead.1]
    rw [hset]
    cases hfind : r.vsec.find? fun sec ↦ t % 60 < sec with
    | some v =>
        rw [hfind, Option.getD_some] at hclosest
        have hv : t % 60 < v := by simpa using List.find?_some hfind
        have hmem : v ∈ r.vsec := List.mem_of_find?_eq_some hfind
        rw [remainingSeconds_of_lt hclosest hv]
        exact .sameMinute hmem hv (hrange v hmem).2 (find?_least hsorted hfind)
    | none =>
        rw [hfind, Option.getD_none] at hclosest
        have hall : ∀ w ∈ r.vsec, w ≤ t % 60 := by
          intro w hw
          have hnot := List.find?_eq_none.mp hfind w hw
          simpa using hnot
        have hmem : head ∈ r.vsec := by simp [hvec]
        rw [remainingSeconds_of_le hclosest (hall head hmem)]
        exact .nextMinute hmem hhead.1 hmin hall

/-- The sixty seconds of a minute are enough to come to the next one of the set. -/
theorem remainingSeconds_le {r : ScheduleRecord} (hcron : r.isCron) (t : ℤ) :
    ScheduleRecord.remainingSeconds r.vsec (t % 60) ≤ 60 := by
  obtain ⟨-, hmem, hnone⟩ := remainingSeconds_spec hcron t
  generalize ScheduleRecord.remainingSeconds r.vsec (t % 60) = d at hmem hnone
  by_contra hgt
  have hback := hnone (t + d - 60) (by omega) (by omega)
  rw [Int.sub_emod_right] at hback
  exact hback hmem

/-- The seconds that a token and the vector made of it stand for. -/
def secondsOfToken (sec : List Char) (vsec : List ℤ) : List ℤ :=
  if sec = ['*'] then [0] else vsec

theorem secondsSet_eq_secondsOfToken {r : ScheduleRecord} {sec : List Char} {val : ℤ}
    (h : parseItem sec 0 59 [] 0 = .ok (val, r.vsec)) :
    r.secondsSet = secondsOfToken sec r.vsec := by
  unfold ScheduleRecord.secondsSet secondsOfToken
  by_cases hstar : sec = ['*']
  · subst hstar
    simp [parseItem_star h]
  · rw [if_neg hstar]
    apply if_neg
    obtain ⟨-, hbounds⟩ := listed_of_parseItem hstar h
    obtain ⟨head, rest, hvec⟩ := List.exists_cons_of_ne_nil (parseItem_ne_nil (by decide) h)
    have hhead := hbounds head (by simp [hvec])
    rw [hvec, List.headD_cons]
    omega

/-- `getNext` of a cron record leads to the next second of its set, at most a minute
ahead. -/
theorem getNext_next_second (r : ScheduleRecord) (hcron : r.isCron) (sec : List Char) (val : ℤ)
    (hsec : parseItem sec 0 59 [] 0 = .ok (val, r.vsec)) (actualTimePoint : ℤ) (actualTime : Tm)
    (hlast : actualTime.tm_sec ≤ 59) :
    ∃ d, (r.getNext actualTimePoint actualTime).1 = actualTimePoint + seconds d ∧
      1 ≤ d ∧ d ≤ 60 ∧ (actualTime.tm_sec + d) % 60 ∈ secondsOfToken sec r.vsec ∧
      ∀ d', 1 ≤ d' → d' < d →
        (actualTime.tm_sec + d') % 60 ∉ secondsOfToken sec r.vsec := by
  have hfirst := actualTime.sec_nonneg
  have hmod : actualTime.tm_sec % 60 = actualTime.tm_sec := Int.emod_eq_of_lt hfirst (by omega)
  have hle := remainingSeconds_le hcron actualTime.tm_sec
  have hspec := remainingSeconds_spec hcron actualTime.tm_sec
  rw [secondsSet_eq_secondsOfToken hsec] at hspec
  rw [hmod] at hle hspec
  obtain ⟨hpos, hmem, hnone⟩ := hspec
  refine ⟨_, ?_, hpos, hle, hmem, ?_⟩
  · rw [Store.getNext_cron hcron]
  · intro d' hd' hlt
    exact hnone _ (by omega) (by omega)

/-- Ten and forty seconds past every minute. -/
def twiceAMinute : ScheduleRecord :=
  .ofPattern 7 "client" "task"
    { vsec := [10, 40], vmin := [-1], vhour := [-1], vmday := [-1], vmon := [-1], vyear := [-1]
      vwday := [-1], seconds_ok := Or.inr ⟨by decide, by simp [Listed]⟩ }

theorem getNext_next_second_twiceAMinute :
    ∃ d, (twiceAMinute.getNext 45000000000 (epochDay.localtime 45)).1 = 45000000000 + seconds d ∧
      1 ≤ d ∧ d ≤ 60 ∧
      ((epochDay.localtime 45).tm_sec + d) % 60 ∈
        secondsOfToken "40,10".toList twiceAMinute.vsec ∧
      ∀ d', 1 ≤ d' → d' < d → ((epochDay.localtime 45).tm_sec + d') % 60 ∉
        secondsOfToken "40,10".toList twiceAMinute.vsec :=
  getNext_next_second twiceAMinute (by decide) "40,10".toList 0 (by decide) 45000000000
    (epochDay.localtime 45) (by decide)

/-- A second the task is due in: its `tm_sec` is in the seconds set and the rest of
the calendar time fits the pattern. -/
def ScheduleRecord.Due (env : Env) (r : ScheduleRecord) (t : ℤ) : Prop :=
  (env.localtime t).tm_sec ∈ r.secondsSet ∧ r.verifyTimePattern (env.localtime t) = true

theorem toTimeT_add_seconds (tp d : ℤ) : toTimeT (tp + seconds d) = toTimeT tp + d := by
  unfold toTimeT seconds
  omega

/-- Planned for second `planned` and woken in second `woken`: in time, or one second
later without a difference.  `start` is the second of the addition. -/
def WokenInTime (env : Env) (r : ScheduleRecord) (start planned woken : ℤ) : Prop :=
  woken = planned ∨
    if (env.localtime woken).tm_sec ∈ r.secondsSet then
      r.verifyTimePattern (env.localtime planned) = false
    else
      r.verifyTimePattern (env.localtime woken) = r.verifyTimePattern (env.localtime planned) ∨
        r.verifyTimePattern (env.localtime planned) = false ∧
          ∀ t, start < t → t < planned → ¬ r.Due env t

/-- A push left out was none of the planned second's. -/
theorem WokenInTime.planned_false {env : Env} {r : ScheduleRecord} {start planned woken : ℤ}
    (h : WokenInTime env r start planned woken)
    (hverify : r.verifyTimePattern (env.localtime woken) = false) :
    r.verifyTimePattern (env.localtime planned) = false := by
  rcases h with rfl | h
  · exact hverify
  · split at h
    case isTrue => exact h
    case isFalse =>
      rcases h with heq | ⟨hfalse, -⟩
      · rw [← heq]
        exact hverify
      · exact hfalse

/-- A push serves a second that is due, unless none has been so far. -/
theorem WokenInTime.serves {env : Env} {r : ScheduleRecord} {start planned woken : ℤ}
    (h : WokenInTime env r start planned woken)
    (hset : (env.localtime planned).tm_sec ∈ r.secondsSet) (hle : planned ≤ woken)
    (hverify : r.verifyTimePattern (env.localtime woken) = true) :
    (∃ u, planned ≤ u ∧ u ≤ woken ∧ r.Due env u) ∨
      ∀ t, start < t → t < planned → ¬ r.Due env t := by
  rcases h with rfl | h
  · exact Or.inl ⟨woken, le_rfl, le_rfl, hset, hverify⟩
  · split at h
    case isTrue hmem => exact Or.inl ⟨woken, hle, le_rfl, hmem, hverify⟩
    case isFalse =>
      rcases h with heq | ⟨-, hnone⟩
      · exact Or.inl ⟨planned, le_rfl, hle, hset, by rw [← heq]; exact hverify⟩
      · exact Or.inr hnone

section Serving

variable {env : Env} (hsec : ∀ t, (env.localtime t).tm_sec = t % 60) {r : ScheduleRecord}
  (hcron : r.isCron)

include hsec hcron

/-- One firing, planned for `planned` and woken at `woken`, extends the service up to
the next planned second. -/
theorem servedOnce_fire {start planned woken : ℤ} {log : List ℤ}
    (h : ServedOnce (r.Due env) start planned log) (hplanned : planned % 60 ∈ r.secondsSet)
    (hle : planned ≤ woken) (hlt : woken ≤ planned + 1)
    (hwoken : WokenInTime env r start planned woken) :
    ServedOnce (r.Due env) start
      (woken + ScheduleRecord.remainingSeconds r.vsec (env.localtime woken).tm_sec)
      (log ++ if r.verifyTimePattern (env.localtime woken) then [woken] else []) := by
  rw [hsec]
  obtain ⟨hpos, -, hgap⟩ := remainingSeconds_spec hcron woken
  have hgap' : ∀ t, woken < t →
      t < woken + ScheduleRecord.remainingSeconds r.vsec (woken % 60) → ¬ r.Due env t := by
    intro t hwt ht hdue
    have hmem := hdue.1
    rw [hsec] at hmem
    exact hgap t hwt ht hmem
  have hcases : ∀ t, planned ≤ t → t ≤ woken → t = planned ∨ t = woken := by omega
  have hset : (env.localtime planned).tm_sec ∈ r.secondsSet := by rwa [hsec]
  cases hverify : r.verifyTimePattern (env.localtime woken) with
  | false =>
      have hplanned_false := hwoken.planned_false hverify
      rw [if_neg (by simp), List.append_nil]
      refine h.quiet (by omega) ?_
      intro t ht hbound hdue
      rcases lt_or_ge woken t with hwt | htw
      · exact hgap' t hwt hbound hdue
      · have htrue := hdue.2
        rcases hcases t ht htw with rfl | rfl
        · simp [hplanned_false] at htrue
        · simp [hverify] at htrue
  | true =>
      rw [if_pos rfl]
      refine h.serve hle (by omega) (hwoken.serves hset hle hverify) ?_
      intro t ht hbound hdue
      have htw : t ≤ woken := by
        by_contra hnot
        exact hgap' t (by omega) hbound hdue
      refine ⟨htw, ?_⟩
      intro u htu hu
      by_contra hnot
      -- only the planned second and the one after it can both be due up to the wake-up
      obtain rfl : t = planned := by omega
      obtain rfl : u = woken := by omega
      rcases hwoken with heq | hwoken
      · omega
      · rw [if_pos hu.1] at hwoken
        have htrue := hdue.2
        simp [hwoken] at htrue

end Serving

/-! ## The scheduler's state -/

/-- The calendar seconds of the wake-ups at which record `id` was pushed. -/
def State.pushSeconds (s : State) (id : ℕ) : List ℤ :=
  (s.dispatched.filter fun f ↦ f.record = id).map fun f ↦ toTimeT f.reading

/-- The same, with the push that is about to happen. -/
def State.servedSeconds (s : State) (r : ScheduleRecord) (id : ℕ) : List ℤ :=
  s.pushSeconds id ++
    ((s.timer.inHand.filter fun f ↦ f.record = id).filter fun _ ↦
      r.verifyTimePattern s.timeStr).map fun f ↦ toTimeT f.reading

structure ClockRead (env : Env) (s : State) : Prop where
  timeStr : s.timeStr = env.localtime (toTimeT s.reading)
  past : s.reading ≤ s.now

theorem clockRead_of_reachable {env : Env} {s : State} (h : (system env).Reachable s) :
    ClockRead env s := by
  refine System.Reachable.invariant ?_ ?_ h
  · rintro s ⟨now, rfl⟩
    exact ⟨rfl, le_rfl⟩
  · rintro s a t ⟨htime, hpast⟩ hstep
    cases moves_of_step hstep with
    | tick d => exact ⟨htime, by change s.reading ≤ s.now + d; omega⟩
    | readStart at_pc => exact ⟨rfl, le_rfl⟩
    | readTime at_pc => exact ⟨rfl, le_rfl⟩
    | _ => exact ⟨htime, hpast⟩

/-- The assumption on the run: nothing is added, record `id` is not removed, and it is
taken out later than its time, by less than a second. -/
def BoundedLatency (id : ℕ) (s : State) : Action → Prop
  | .add _ _ => False
  | .remove removal => id ∉ s.store.targets removal
  | .timer => s.timer = .locked → ∀ key, s.store.due s.timePoint = some (key, id) →
      key < s.reading ∧ s.reading < key + seconds 1
  | _ => True

/-- The condition on the firings of record `id`, added in second `start`. -/
def FiresInTime (env : Env) (r : ScheduleRecord) (id : ℕ) (start : ℤ) (s : State) :
    Action → Prop
  | .timer => s.timer = .locked → ∀ key, s.store.due s.timePoint = some (key, id) →
      WokenInTime env r start (toTimeT key) (toTimeT s.reading)
  | _ => True

/-- Record `id` with rule `r` is stored under `key`, at a second of its set, and every
due second before has been served.  In the inner loop its turn comes only with a
`timePoint` that is the reading of the clock. -/
structure OnSchedule (env : Env) (r : ScheduleRecord) (id : ℕ) (start : ℤ) (s : State) (key : ℤ) :
    Prop where
  wf : s.store.Wf
  rule : ∃ b, s.store.record id = r.setStarted b
  timeStr : s.timeStr = env.localtime (toTimeT s.reading)
  entry : (key, id) ∈ s.store.byTime.entries
  planned : toTimeT key % 60 ∈ r.secondsSet
  fresh : s.timer.inner = true →
    s.timePoint = s.reading ∨ s.timePoint ≤ key ∨ s.reading < key
  served : ServedOnce (r.Due env) start (toTimeT key) (s.servedSeconds r id)

theorem Store.Wf.key_unique {store : Store} (hs : store.Wf) {k k' : ℤ} {id : ℕ}
    (h : (k, id) ∈ store.byTime.entries) (h' : (k', id) ∈ store.byTime.entries) : k = k' := by
  have hnodup : (store.byTime.entries.map Prod.snd).Nodup := hs.nodup
  exact congrArg Prod.fst (List.inj_on_of_nodup_map hnodup h h' rfl)

section Run

variable {env : Env} {r : ScheduleRecord} {id : ℕ} {start key : ℤ} {s t : State}

theorem OnSchedule.frame (hs : OnSchedule env r id start s key) (hstore : t.store = s.store)
    (htime : t.timeStr = env.localtime (toTimeT t.reading))
    (hserved : t.servedSeconds r id = s.servedSeconds r id)
    (hfresh : t.timer.inner = true →
      t.timePoint = t.reading ∨ t.timePoint ≤ key ∨ t.reading < key) :
    OnSchedule env r id start t key where
  wf := by rw [hstore]; exact hs.wf
  rule := by rw [hstore]; exact hs.rule
  timeStr := htime
  entry := by rw [hstore]; exact hs.entry
  planned := hs.planned
  fresh := hfresh
  served := by rw [hserved]; exact hs.served

theorem servedSeconds_idle (hpc : s.timer.inHand = []) :
    s.servedSeconds r id = s.pushSeconds id := by
  simp [State.servedSeconds, hpc]

theorem servedSeconds_of_unknown
    (h : ∀ f ∈ s.dispatched ++ s.timer.inHand, f.record ≠ id) : s.servedSeconds r id = [] := by
  have hdispatched : s.dispatched.filter (fun f ↦ f.record = id) = [] := by
    rw [List.filter_eq_nil_iff]
    intro f hf
    simpa using h f (List.mem_append_left _ hf)
  have hhand : s.timer.inHand.filter (fun f ↦ f.record = id) = [] := by
    rw [List.filter_eq_nil_iff]
    intro f hf
    simpa using h f (List.mem_append_right _ hf)
  simp [State.servedSeconds, State.pushSeconds, hdispatched, hhand]

theorem servedSeconds_dispatchStep (hrule : ∃ b, s.store.record id = r.setStarted b) {f : Firing}
    (hpc : s.timer = .dispatch f) :
    (s.dispatchStep f).servedSeconds r id = s.servedSeconds r id := by
  obtain ⟨b, hb⟩ := hrule
  rw [servedSeconds_idle rfl]
  by_cases hf : f.record = id
  · cases hv : r.verifyTimePattern s.timeStr <;>
      simp [State.servedSeconds, State.pushSeconds, State.dispatchStep, hpc, TimerPc.inHand,
        hf, hb, hv]
  · simp only [State.servedSeconds, State.pushSeconds, State.dispatchStep, hpc, TimerPc.inHand]
    split <;> simp [hf]

/-- The section that takes record `id` out, in time: it is stored again under the next
planned second, and what is about to be pushed serves the last one. -/
theorem OnSchedule.fire (hsec : ∀ t, (env.localtime t).tm_sec = t % 60) (hcron : r.isCron)
    (hs : OnSchedule env r id start s key) (hpc : s.timer = .locked)
    (hdue : s.store.due s.timePoint = some (key, id))
    (hlatency : key < s.reading ∧ s.reading < key + seconds 1)
    (hwoken : WokenInTime env r start (toTimeT key) (toTimeT s.reading)) :
    ∃ next, OnSchedule env r id start s.innerSection next := by
  obtain ⟨b, hb⟩ := hs.rule
  obtain ⟨rest, hentries, hlt⟩ := Store.due_eq_some hdue
  have hlt : key < s.timePoint := hlt
  have hfresh : s.timePoint = s.reading := by
    rcases hs.fresh (by simp [hpc, TimerPc.inner]) with h | h | h
    · exact h
    · omega
    · omega
  have hseconds : toTimeT key ≤ toTimeT s.reading ∧ toTimeT s.reading ≤ toTimeT key + 1 := by
    unfold toTimeT seconds at *
    omega
  let d := ScheduleRecord.remainingSeconds r.vsec s.timeStr.tm_sec
  have hd : d = ScheduleRecord.remainingSeconds r.vsec (toTimeT s.reading % 60) := by
    rw [← hsec, ← hs.timeStr]
  have hspec := remainingSeconds_spec hcron (toTimeT s.reading)
  rw [← hd] at hspec
  have hnext : (s.store.record id).getNext s.timePoint s.timeStr =
      (s.reading + seconds d, s.store.record id) := by
    have hcron' : (s.store.record id).isCron := by
      rw [hb]
      exact hcron
    rw [Store.getNext_cron hcron', hfresh, hb]
    rfl
  have hstore : s.innerSection.store = s.store.timerSection s.timePoint s.timeStr := rfl
  have hentry : (s.reading + seconds d, id) ∈ s.innerSection.store.byTime.entries := by
    rw [hstore, Store.timerSection_of_due_some hdue]
    refine (Store.mem_reschedule _).mpr (Or.inl ?_)
    rw [hnext]
    refine ⟨?_, rfl⟩
    have hpos := hspec.pos
    unfold seconds
    omega
  refine ⟨s.reading + seconds d, hs.wf.timerSection _ _, ?_, hs.timeStr, hentry, ?_, ?_, ?_⟩
  · obtain ⟨b', hb'⟩ := hs.wf.record_timerSection s.timePoint s.timeStr id
    rw [hstore, hb', hb]
    exact ⟨b', rfl⟩
  · rw [toTimeT_add_seconds]
    exact hspec.mem
  · intro _
    exact Or.inr (Or.inl (Store.nextWakeup_le _ hentry))
  · have hserved := servedOnce_fire hsec hcron hs.served hs.planned hseconds.1 hseconds.2 hwoken
    rw [← hs.timeStr] at hserved
    rw [toTimeT_add_seconds]
    have hlog : s.innerSection.servedSeconds r id = s.servedSeconds r id ++
        if r.verifyTimePattern s.timeStr then [toTimeT s.reading] else [] := by
      rw [servedSeconds_idle (s := s) (by rw [hpc]; rfl)]
      cases hv : r.verifyTimePattern s.timeStr <;>
        simp [State.servedSeconds, State.pushSeconds, State.innerSection, hdue, TimerPc.inHand, hv]
    rw [hlog]
    exact hserved

theorem OnSchedule.innerSection (hsec : ∀ t, (env.localtime t).tm_sec = t % 60)
    (hcron : r.isCron) (hs : OnSchedule env r id start s key) (hpc : s.timer = .locked)
    (hlatency : BoundedLatency id s .timer) (hfires : FiresInTime env r id start s .timer) :
    ∃ next, OnSchedule env r id start s.innerSection next := by
  obtain ⟨b, hb⟩ := hs.rule
  have hstore : s.innerSection.store = s.store.timerSection s.timePoint s.timeStr := rfl
  cases hdue : s.store.due s.timePoint with
  | none =>
      have hsame : s.innerSection.store = s.store := Store.timerSection_of_due_none hdue
      refine ⟨key, hs.frame hsame hs.timeStr ?_ ?_⟩
      · rw [servedSeconds_idle (s := s) (by rw [hpc]; rfl),
          servedSeconds_idle (by simp [State.innerSection, hdue, TimerPc.inHand])]
        rfl
      · intro _
        have hentry : (key, id) ∈ s.innerSection.store.byTime.entries := by
          rw [hsame]
          exact hs.entry
        exact Or.inr (Or.inl (Store.nextWakeup_le _ hentry))
  | some e =>
      obtain ⟨k, n⟩ := e
      obtain ⟨rest, hentries, hlt⟩ := Store.due_eq_some hdue
      by_cases hn : n = id
      · subst hn
        obtain rfl := hs.wf.key_unique hs.entry (by rw [hentries]; exact List.mem_cons_self)
        exact hs.fire hsec hcron hpc hdue (hlatency hpc key hdue) (hfires hpc key hdue)
      · have hentry : (key, id) ∈ s.innerSection.store.byTime.entries := by
          have hmem := hs.entry
          rw [hentries] at hmem
          rw [hstore, Store.timerSection_of_due_some hdue]
          refine (Store.mem_reschedule _).mpr (Or.inr ?_)
          rw [hentries]
          rcases List.mem_cons.mp hmem with heq | hmem
          · exact absurd (congrArg Prod.snd heq).symm hn
          · exact hmem
        refine ⟨key, hs.wf.timerSection _ _, ?_, hs.timeStr, hentry, hs.planned, ?_, ?_⟩
        · obtain ⟨b', hb'⟩ := hs.wf.record_timerSection s.timePoint s.timeStr id
          rw [hstore, hb', hb]
          exact ⟨b', rfl⟩
        · intro _
          exact Or.inr (Or.inl (Store.nextWakeup_le _ hentry))
        · have hlog : s.innerSection.servedSeconds r id = s.servedSeconds r id := by
            rw [servedSeconds_idle (s := s) (by rw [hpc]; rfl)]
            simp [State.servedSeconds, State.pushSeconds, State.innerSection, hdue,
              TimerPc.inHand, hn]
          rw [hlog]
          exact hs.served

theorem OnSchedule.remove (hs : OnSchedule env r id start s key) {removal : Removal}
    (hkept : id ∉ s.store.targets removal) (removed : List ℕ) :
    OnSchedule env r id start { s with store := s.store.remove removal, removed := removed }
      key := by
  have hrecord : (s.store.remove removal).record id = s.store.record id := by
    rw [Store.record, s.store.records_remove, Store.record]
  have hentry : (key, id) ∈ (s.store.remove removal).byTime.entries := by
    have hpending := (hs.wf.pending_remove removal id).mpr
      ⟨Store.pending_of_mem hs.entry, hkept⟩
    obtain ⟨k, hk⟩ := Multimap.mem_values.mp hpending
    obtain rfl := hs.wf.key_unique hs.entry (Store.mem_of_mem_remove hk)
    exact hk
  refine ⟨hs.wf.remove removal, ?_, hs.timeStr, hentry, hs.planned, hs.fresh, hs.served⟩
  change ∃ b, (s.store.remove removal).record id = _
  rw [hrecord]
  exact hs.rule

theorem OnSchedule.move (hsec : ∀ t, (env.localtime t).tm_sec = t % 60) (hcron : r.isCron)
    (hs : OnSchedule env r id start s key) {a : Action} (h : Moves env s a t)
    (hlatency : BoundedLatency id s a) (hfires : FiresInTime env r id start s a) :
    ∃ next, OnSchedule env r id start t next := by
  -- a step of the timer between two points where it holds no record
  have hidle : ∀ u : State, u.store = s.store → u.dispatched = s.dispatched →
      u.timer.inHand = [] → s.timer.inHand = [] →
      u.timeStr = env.localtime (toTimeT u.reading) →
      (u.timer.inner = true → u.timePoint = u.reading ∨ u.timePoint ≤ key ∨ u.reading < key) →
      ∃ next, OnSchedule env r id start u next := by
    intro u hstore hdispatched hu hs' htime hfresh
    refine ⟨key, hs.frame hstore htime ?_ hfresh⟩
    rw [servedSeconds_idle hu, servedSeconds_idle hs', State.pushSeconds, hdispatched,
      State.pushSeconds]
  -- the same outside the inner loop
  have houter : ∀ u : State, u.store = s.store → u.dispatched = s.dispatched →
      u.timer.inHand = [] → s.timer.inHand = [] →
      u.timeStr = env.localtime (toTimeT u.reading) → u.timer.inner = false →
      ∃ next, OnSchedule env r id start u next := by
    intro u hstore hdispatched hu hs' htime hout
    exact hidle u hstore hdispatched hu hs' htime fun hin ↦ by simp [hout] at hin
  cases h with
  | stop | tick d | addUnlock held => exact ⟨key, hs.frame rfl hs.timeStr rfl hs.fresh⟩
  | flag a pc adder pendingStops is_flag at_pc =>
      rcases at_pc with ⟨-, rfl⟩ | ⟨hb, rfl⟩
      · exact ⟨key, hs.frame rfl hs.timeStr rfl hs.fresh⟩
      · exact houter _ rfl rfl rfl (TimerPc.inHand_of_waiting (Or.inr hb)) hs.timeStr rfl
  | add request rands rs store free ok added => exact hlatency.elim
  | refused request rands => exact hlatency.elim
  | remove removal free => exact ⟨key, hs.remove hlatency _⟩
  | woken at_pc =>
      exact houter _ rfl rfl rfl (TimerPc.inHand_of_waiting (Or.inr at_pc)) hs.timeStr rfl
  | sleep at_pc _ | wake at_pc _ =>
      exact houter _ rfl rfl rfl (TimerPc.inHand_of_waiting at_pc) hs.timeStr rfl
  | start at_pc | clear at_pc | enter at_pc _ | leave at_pc _ | leaveInner at_pc _ =>
      exact houter _ rfl rfl rfl (by rw [at_pc]; rfl) hs.timeStr rfl
  | readStart at_pc => exact houter _ rfl rfl rfl (by rw [at_pc]; rfl) rfl rfl
  | readTime at_pc => exact hidle _ rfl rfl rfl (by rw [at_pc]; rfl) rfl (fun _ ↦ Or.inl rfl)
  | enterInner at_pc run =>
      exact hidle _ rfl rfl rfl (by rw [at_pc]; rfl) hs.timeStr
        (fun _ ↦ hs.fresh (by rw [at_pc]; rfl))
  | innerSection at_pc free => exact hs.innerSection hsec hcron at_pc hlatency hfires
  | dispatch f at_pc =>
      exact ⟨key, hs.frame rfl hs.timeStr (servedSeconds_dispatchStep hs.rule at_pc)
        (fun _ ↦ hs.fresh (by rw [at_pc]; rfl))⟩

/-! ## From the addition on -/

theorem entry_of_addScheduleRecords {choices : List (ℤ × List ℤ)} {rs : List ScheduleRecord}
    {u v : Store} (now : ℤ) (hnow : ∀ n ∈ choices.map Prod.fst, n = now)
    (h : Store.addScheduleRecords env choices rs u = some v) :
    ∀ id, u.records.length ≤ id → id < v.records.length → (v.record id).isCron →
      (now + seconds (ScheduleRecord.remainingSeconds (v.record id).vsec
        (env.localtime (toTimeT now)).tm_sec), id) ∈ v.byTime.entries := by
  refine Store.addScheduleRecords_induction (P := fun v ↦
    ∀ id, u.records.length ≤ id → id < v.records.length → (v.record id).isCron →
      (now + seconds (ScheduleRecord.remainingSeconds (v.record id).vsec
        (env.localtime (toTimeT now)).tm_sec), id) ∈ v.byTime.entries) h ?_ ?_
  · intro id hle hlt
    omega
  · intro v n q handle hn _ _ hv id hle hid hcron
    obtain rfl := hnow n hn
    rw [Store.length_insertRecord] at hid
    rw [Store.mem_insertRecord]
    rcases Nat.lt_succ_iff_lt_or_eq.mp hid with hlt | rfl
    · rw [Store.record_insertRecord hlt] at hcron ⊢
      exact Or.inr (hv id hle hlt hcron)
    · rw [Store.record_insertRecord_new] at hcron ⊢
      left
      obtain ⟨b, hb⟩ := Store.getNext_record q n (env.localtime (toTimeT n))
      have hq : q.isCron := by
        rw [hb] at hcron
        exact hcron
      rw [Store.getNext_cron hq]
      rfl

/-- The state right after the addition of a cron record. -/
theorem onSchedule_of_add (hsec : ∀ t, (env.localtime t).tm_sec = t % 60)
    (h : (system env).Reachable s) {request : Request} {rands : List (List ℤ)}
    (hadd : (system env).step s (.add request rands) = some t)
    (hnew : s.store.records.length ≤ id) (hid : id < t.store.records.length)
    (hcron : (t.store.record id).isCron) :
    ∃ next, OnSchedule env (t.store.record id) id (toTimeT s.now) t next := by
  have hclock := clockRead_of_reachable h
  have hknown := (accounted_of_reachable h).known
  have hwf := store_wf (System.Reachable.step h hadd)
  have hmove : Moves env s (.add request rands) t := moves_of_step hadd
  cases hmove with
  | flag a pc adder pendingStops is_flag at_pc => simp at is_flag
  | refused request rands => omega
  | add request rands rs store free ok added =>
      have hentry := entry_of_addScheduleRecords s.now (by simp) added id hnew hid hcron
      have hspec := remainingSeconds_spec hcron (toTimeT s.now)
      rw [← hsec] at hspec
      refine ⟨_, hwf, ⟨_, rfl⟩, hclock.timeStr, hentry, ?_, ?_, ?_⟩
      · rw [toTimeT_add_seconds]
        exact hspec.mem
      · intro _
        refine Or.inr (Or.inr ?_)
        have hpast := hclock.past
        have hpos : 0 < ScheduleRecord.remainingSeconds (store.record id).vsec
            (env.localtime (toTimeT s.now)).tm_sec := hspec.pos
        change s.reading < s.now + seconds _
        unfold seconds
        omega
      · have hnone : ∀ f ∈ s.dispatched ++ s.timer.inHand, f.record ≠ id := by
          rintro f hf rfl
          have hlt := hknown f.record (List.mem_map_of_mem hf)
          omega
        have hlog : State.servedSeconds { s with store := store, adder := some .inserted }
            (store.record id) id = [] := servedSeconds_of_unknown hnone
        rw [hlog, toTimeT_add_seconds]
        apply servedOnce_nil
        intro u hlt hgt hdue
        have hmem := hdue.1
        rw [hsec] at hmem
        exact hspec.none_before u hlt hgt hmem

end Run

/-- Cron completeness under bounded latency, where every wake-up of the record falls
into the second it was planned for, or into the following one without a
difference: every due second after the addition and before the one the record is
stored under now has exactly one push before the next due second; and as long as
the next wake-up is not late by a second, those are all the due seconds up to two
seconds ago. -/
theorem cron_served_once (env : Env) (hsec : ∀ t, (env.localtime t).tm_sec = t % 60)
    (s₀ s₁ : State) (h₀ : (system env).Reachable s₀) (request : Request)
    (rands : List (List ℤ)) (hadd : (system env).step s₀ (.add request rands) = some s₁)
    (id : ℕ) (hnew : s₀.store.records.length ≤ id) (hid : id < s₁.store.records.length)
    (hcron : (s₁.store.record id).isCron) (s : State)
    (hrun : (system env).Reaches (fun u a ↦ BoundedLatency id u a ∧
      FiresInTime env (s₁.store.record id) id (toTimeT s₀.now) u a) s₁ s)
    (hidle : ∀ f, s.timer = .dispatch f → f.record ≠ id) :
    ∃ key, (key, id) ∈ s.store.byTime.entries ∧
      (∀ t, toTimeT s₀.now < t → t < toTimeT key → (s₁.store.record id).Due env t →
        servings ((s₁.store.record id).Due env) t (s.pushSeconds id) = 1) ∧
      (s.now < key + seconds 1 → ∀ t, t + 2 ≤ toTimeT s.now → t < toTimeT key) := by
  have hall : ∃ key, OnSchedule env (s₁.store.record id) id (toTimeT s₀.now) s key := by
    refine hrun.preserves
      (I := fun u ↦ ∃ key, OnSchedule env (s₁.store.record id) id (toTimeT s₀.now) u key) ?_
      (onSchedule_of_add hsec h₀ hadd hnew hid hcron)
    rintro u a v ⟨key, hu⟩ ⟨hlatency, hfires⟩ hstep
    exact hu.move hsec hcron (moves_of_step hstep) hlatency hfires
  obtain ⟨key, hs⟩ := hall
  have hlog : s.servedSeconds (s₁.store.record id) id = s.pushSeconds id := by
    have hhand : s.timer.inHand.filter (fun f ↦ f.record = id) = [] := by
      cases hpc : s.timer with
      | dispatch f => simpa [TimerPc.inHand] using hidle f hpc
      | _ => rfl
    simp [State.servedSeconds, hhand]
  refine ⟨key, hs.entry, ?_, ?_⟩
  · intro t hstart hkey hdue
    rw [← hlog]
    exact hs.served.once t hstart hkey hdue
  · intro hnow t ht
    unfold toTimeT seconds at *
    omega

/-! ## One record in every second -/

/-- An executable check of the steps, by the times of the firings of record `id`. -/
def firesBy (p : ℤ → ℤ → Bool) (id : ℕ) (s : State) : Action → Bool
  | .add _ _ => false
  | .remove removal => id ∉ s.store.targets removal
  | .timer => s.timer ≠ .locked ||
      (s.store.due s.timePoint).all fun e ↦ e.2 ≠ id || p e.1 s.reading
  | _ => true

def withinSecond (key reading : ℤ) : Bool := key < reading && reading < key + seconds 1

def sameSecond (key reading : ℤ) : Bool :=
  withinSecond key reading && toTimeT reading = toTimeT key

theorem firesBy_timer {p : ℤ → ℤ → Bool} {id : ℕ} {s : State} (h : firesBy p id s .timer = true)
    (hpc : s.timer = .locked) {key : ℤ} (hdue : s.store.due s.timePoint = some (key, id)) :
    p key s.reading = true := by
  simpa [firesBy, hpc, hdue] using h

theorem boundedLatency_of_firesBy {p : ℤ → ℤ → Bool}
    (hp : ∀ key reading, p key reading = true → withinSecond key reading = true) {id : ℕ}
    {s : State} {a : Action} (h : firesBy p id s a = true) : BoundedLatency id s a := by
  cases a with
  | add request rands => simp [firesBy] at h
  | remove removal => simpa [firesBy, BoundedLatency] using h
  | timer =>
      intro hpc key hdue
      have hwithin := hp _ _ (firesBy_timer h hpc hdue)
      simpa [withinSecond] using hwithin
  | _ => trivial

theorem firesInTime_of_firesBy {env : Env} {r : ScheduleRecord} {id : ℕ} {start : ℤ} {s : State}
    {a : Action} (h : firesBy sameSecond id s a = true) : FiresInTime env r id start s a := by
  cases a with
  | timer =>
      intro hpc key hdue
      have hsame := firesBy_timer h hpc hdue
      simp only [sameSecond, Bool.and_eq_true, decide_eq_true_eq] at hsame
      exact Or.inl hsame.2
  | _ => trivial

/-- A task for the first and second second of every minute, added at 0.9 s. -/
def twoSeconds : Request :=
  .updateConfiguration (.object [("TasksJson", .array [.object [
    ("time", .string "1,2 * * * * * *"), ("service", .string "client"),
    ("message", .string "task")]])]) (fun _ ↦ 0) (fun _ ↦ 7)

def twoSecondsRecord : ScheduleRecord :=
  .ofPattern 7 "client" "task"
    { vsec := [1, 2], vmin := [-1], vhour := [-1], vmday := [-1], vmon := [-1], vyear := [-1]
      vwday := [-1], seconds_ok := Or.inr ⟨by decide, by simp [Listed]⟩ }

theorem twoSeconds_records : twoSeconds.records epochDay = .ok [twoSecondsRecord] := by
  decide

def withTwoSeconds : State :=
  { State.create epochDay 900000000 with
    store := Store.empty.insertRecord 1900000000 twoSecondsRecord 7
    adder := some .inserted }

theorem twoSeconds_added :
    (system epochDay).step (State.create epochDay 900000000) (.add twoSeconds [[]]) =
      some withTwoSeconds := by
  have hstep : (system epochDay).step (State.create epochDay 900000000) (.add twoSeconds [[]]) =
      (State.create epochDay 900000000).addStep epochDay twoSeconds [[]] := rfl
  rw [hstep, State.addStep, twoSeconds_records]
  rfl

/-- The timer started, woken `d` nanoseconds after 0.9 s for the time 1.9 s, and the
task pushed. -/
def wokenAfter (d : ℕ) : List Action :=
  [.addFlag, .addUnlock, .start, .timer, .timer, .timer, .timer, .timer, .timer, .timer, .timer,
    .timer, .timer, .tick d, .timer, .timer, .timer, .timer, .timer, .timer]

def firedAt (d : ℕ) : State :=
  { withTwoSeconds with
    store := withTwoSeconds.store.timerSection (900000000 + d)
      (epochDay.localtime (toTimeT (900000000 + d)))
    runTimerThread := true
    timer := .testInner
    timePoint := (withTwoSeconds.store.timerSection (900000000 + d)
      (epochDay.localtime (toTimeT (900000000 + d)))).nextWakeup (900000000 + d)
    timeStr := epochDay.localtime (toTimeT (900000000 + d))
    adder := none
    now := 900000000 + d
    reading := 900000000 + d
    dispatched := [⟨0, 1900000000, 900000000 + d⟩] }

theorem cron_served_once_onTime :
    ∃ key, (key, 0) ∈ (firedAt 1050000000).store.byTime.entries := by
  have hrun : (system epochDay).runIf (firesBy sameSecond 0) withTwoSeconds
      (wokenAfter 1050000000) = some (firedAt 1050000000) := by rfl
  have hreach : (system epochDay).Reaches (fun u a ↦ BoundedLatency 0 u a ∧
      FiresInTime epochDay (withTwoSeconds.store.record 0) 0
        (toTimeT (State.create epochDay 900000000).now) u a) withTwoSeconds (firedAt 1050000000) :=
    System.reaches_of_runIf (wokenAfter 1050000000) (fun u a h ↦
      ⟨boundedLatency_of_firesBy (fun _ _ hp ↦ (Bool.and_eq_true_iff.mp hp).1) h,
        firesInTime_of_firesBy h⟩) hrun
  obtain ⟨key, hentry, -⟩ := cron_served_once epochDay (fun _ ↦ rfl)
    (State.create epochDay 900000000) withTwoSeconds (.of_init ⟨_, rfl⟩) twoSeconds [[]]
    twoSeconds_added 0 (by decide) (by decide) (by decide) (firedAt 1050000000) hreach
    (by simp [firedAt])
  exact ⟨key, hentry⟩

/-- Woken 0.2 s late, at 2.1 s, the scheduler serves second two: second one is skipped. -/
theorem cron_second_skipped :
    ∃ (s₀ s₁ s : State) (request : Request) (rands : List (List ℤ)),
      (system epochDay).Reachable s₀ ∧
      (system epochDay).step s₀ (.add request rands) = some s₁ ∧
      (s₁.store.record 0).isCron ∧
      (system epochDay).Reaches (BoundedLatency 0) s₁ s ∧
      ∃ t, toTimeT s₀.now < t ∧ t + 1 ≤ toTimeT s.now ∧
        (s₁.store.record 0).Due epochDay t ∧ (s₁.store.record 0).Due epochDay (t + 1) ∧
        servings ((s₁.store.record 0).Due epochDay) t (s.pushSeconds 0) = 0 := by
  have hrun : (system epochDay).runIf (firesBy withinSecond 0) withTwoSeconds
      (wokenAfter 1200000000) = some (firedAt 1200000000) := by rfl
  have hdue : ∀ t ∈ [(1 : ℤ), 2], (withTwoSeconds.store.record 0).Due epochDay t := by
    unfold ScheduleRecord.Due
    decide
  refine ⟨State.create epochDay 900000000, withTwoSeconds, firedAt 1200000000, twoSeconds, [[]],
    .of_init ⟨_, rfl⟩, twoSeconds_added, by decide, ?_, 1, by decide, by decide,
    hdue 1 (by simp), hdue 2 (by simp), ?_⟩
  · exact System.reaches_of_runIf (wokenAfter 1200000000)
      (fun u a h ↦ boundedLatency_of_firesBy (fun _ _ h ↦ h) h) hrun
  · have hpushes : (firedAt 1200000000).pushSeconds 0 = [] ++ [2] := by decide
    have hnot : ¬ Serves ((withTwoSeconds.store.record 0).Due epochDay) 1 2 := by
      intro hserves
      exact absurd (hserves.2 2 (by decide) (hdue 2 (by simp))) (by decide)
    rw [hpushes, servings_append_of_not hnot]
    rfl

end IqrfDaemon.Scheduler
