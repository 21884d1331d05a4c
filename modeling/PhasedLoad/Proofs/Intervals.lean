import PhasedLoad.Group.Basic
import PhasedLoad.Proofs.Statistics

/-! What a reporter tells of counters that others change between its ticks: what every interval
adds, each once. The growth from tick to tick telescopes, since counters that do not wrap only grow.
-/

namespace PhasedLoad

open Statistics (Update)

inductive Counter
  | requests
  | errors
  | micros

namespace Counter

variable {a b : Snapshot} {s : Statistics} {u : Update} {us : List Update}

def of : Counter → Snapshot → UInt64
  | requests, s => s.requests
  | errors, s => s.errors
  | micros, s => s.micros

def gain : Counter → List Update → Nat
  | requests, us => (Update.requests us).length
  | errors, us => Update.errors us
  | micros, us => Statistics.microsOfAll (Update.requests us)

theorem of_after (c : Counter) (s : Statistics) (us : List Update) :
    c.of (s.after us).counters = c.of s.counters + .ofNat (c.gain us) := by
  rw [Statistics.counters_after]
  cases c <;> rfl

theorem gain_cons (c : Counter) (u : Update) (us : List Update) :
    c.gain (u :: us) = c.gain [u] + c.gain us := by
  cases c <;> cases u <;> simp [gain, Update.requests, Update.errors, Update.took?, Update.isError,
    List.filterMap_cons, List.countP_cons, Statistics.microsOfAll, Nat.add_comm]

theorem of_since (c : Counter) (a b : Snapshot) :
    c.of (a.since b) = Snapshot.excess (c.of a) (c.of b) := by
  cases c <;> rfl

end Counter

/-- With these updates no counter wraps. -/
def Statistics.HasRoom (s : Statistics) (us : List Update) : Prop :=
  ∀ c : Counter, (c.of s.counters).toNat + c.gain us < 2 ^ 64

namespace Snapshot

variable {a b : Snapshot}

theorem toNat_excess (a b : UInt64) : (excess a b).toNat = a.toNat - b.toNat := by
  unfold excess
  split
  · next hle => exact UInt64.toNat_sub_of_le _ _ hle
  · next hlt =>
    have : a.toNat < b.toNat := Nat.lt_of_not_le hlt
    rw [UInt64.toNat_zero]
    omega

/-- All that is counted in `a` is counted in `b`. -/
def Le (a b : Snapshot) : Prop := ∀ c : Counter, (c.of a).toNat ≤ (c.of b).toNat

theorem Le.refl (a : Snapshot) : Le a a := fun _ => Nat.le_refl _

theorem Le.trans {c : Snapshot} (hab : Le a b) (hbc : Le b c) : Le a c :=
  fun k => Nat.le_trans (hab k) (hbc k)

theorem Le.since (h : Le a b) (c : Counter) :
    (c.of a).toNat + (c.of (b.since a)).toNat = (c.of b).toNat := by
  rw [c.of_since, toNat_excess]
  exact Nat.add_sub_cancel' (h c)

theorem zero_since (a : Snapshot) : zero.since a = zero := by
  have hexcess : ∀ n : UInt64, excess 0 n = 0 := by
    intro n
    unfold excess
    split
    · next hle => rw [UInt64.le_zero_iff.mp hle, UInt64.sub_self]
    · rfl
  simp [since, zero, hexcess]

end Snapshot

theorem Statistics.HasRoom.step {s : Statistics} {u : Update} {us : List Update}
    (h : s.HasRoom (u :: us)) :
    Snapshot.Le s.counters (s.update u).counters ∧ (s.update u).HasRoom us := by
  have hone : ∀ c : Counter,
      (c.of (s.update u).counters).toNat = (c.of s.counters).toNat + c.gain [u] := by
    intro c
    have hroom := h c
    rw [c.gain_cons] at hroom
    have hafter := c.of_after s [u]
    rw [after_cons, after_nil] at hafter
    rw [hafter, UInt64.toNat_add, UInt64.toNat_ofNat']
    omega
  refine ⟨fun c => ?_, fun c => ?_⟩
  · rw [hone]
    exact Nat.le_add_right _ _
  · have hroom := h c
    rw [c.gain_cons] at hroom
    rw [hone]
    omega

abbrev Look := Snapshot × Instant

namespace Look

/-- What is told at the second of two ticks: nothing as long as nothing is counted. -/
def report? (p : Look × Look) : Option (Instant × IntervalReport) :=
  if p.2.1 = .zero then none
  else some (p.2.2, .between p.1.1 p.2.1 (Instant.elapsed p.1.2 p.2.2))

def gaps (looks : List Look) : List (Look × Look) := looks.zip looks.tail

/-- What a counter gains from the first tick to the last, gap by gap. -/
def gain (c : Counter) (looks : List Look) : Nat :=
  (gaps looks).foldr (fun p n => (c.of (p.2.1.since p.1.1)).toNat + n) 0

/-- What was counted at a tick is counted at every later one. -/
def Grows (looks : List Look) : Prop := looks.Pairwise fun a b => Snapshot.Le a.1 b.1

def errors (reports : List (Instant × IntervalReport)) : Nat :=
  reports.foldr (fun r n => r.2.errors.toNat + n) 0

variable {looks : List Look} {first last : Look}

theorem Grows.add_gain (h : Grows looks) (c : Counter) (hfirst : looks.head? = some first)
    (hlast : looks.getLast? = some last) :
    (c.of first.1).toNat + gain c looks = (c.of last.1).toNat := by
  induction looks generalizing first with
  | nil => cases hfirst
  | cons a rest ih =>
    cases hfirst
    cases rest with
    | nil =>
      cases hlast
      rfl
    | cons b rest =>
      have hgain : gain c (a :: b :: rest) =
          (c.of (b.1.since a.1)).toNat + gain c (b :: rest) := rfl
      obtain ⟨hle, hrest⟩ := List.pairwise_cons.mp h
      rw [List.getLast?_cons_cons] at hlast
      rw [hgain, ← Nat.add_assoc, (hle b List.mem_cons_self).since c]
      exact ih hrest rfl hlast

theorem errors_filterMap_report? (ps : List (Look × Look)) :
    errors (ps.filterMap report?) =
      ps.foldr (fun p n => (Counter.errors.of (p.2.1.since p.1.1)).toNat + n) 0 := by
  induction ps with
  | nil => rfl
  | cons p ps ih =>
    rw [List.foldr_cons, ← ih]
    by_cases hzero : p.2.1 = .zero
    · rw [List.filterMap_cons_none (by rw [report?, if_pos hzero]), hzero, Snapshot.zero_since]
      exact (Nat.zero_add _).symm
    · rw [List.filterMap_cons_some (by rw [report?, if_neg hzero])]
      rfl

theorem map_report?_gaps (looks : List Look) :
    ((gaps looks).filterMap report?).map (·.1) =
      (looks.tail.filter (·.1 ≠ .zero)).map (·.2) := by
  have hreports : ∀ ps : List (Look × Look), (ps.filterMap report?).map (·.1) =
      ((ps.map (·.2)).filter (·.1 ≠ .zero)).map (·.2) := by
    intro ps
    induction ps with
    | nil => rfl
    | cons p ps ih =>
      by_cases hzero : p.2.1 = .zero
      · rw [List.filterMap_cons_none (by rw [report?, if_pos hzero]), List.map_cons,
          List.filter_cons_of_neg (by simp [hzero]), ih]
      · rw [List.filterMap_cons_some (by rw [report?, if_neg hzero]), List.map_cons, List.map_cons,
          List.filter_cons_of_pos (by simp [hzero]), List.map_cons, ih]
  rw [hreports, gaps, List.map_snd_zip]
  simp

end Look

def Reporter.due (r : Reporter) : Nat → Instant
  | 0 => r.next
  | k + 1 => Instant.wake (r.due k) r.interval

theorem Reporter.due_mono (r : Reporter) {k m : Nat} (h : k ≤ m) : r.due k ≤ r.due m := by
  induction h with
  | refl => exact Nat.le_refl _
  | step _ ih => exact Nat.le_trans ih (Instant.le_wake _ _)

/-- What happens to counters that a reporter watches. -/
inductive Occasion
  | update (u : Update)
  | tick

def Occasion.update? : Occasion → Option Update
  | update u => some u
  | tick => none

structure Watch where
  reporter : Reporter
  stats : Statistics
  reports : List (Instant × IntervalReport)

namespace Watch

def start (interval : Duration) (now : Instant) (stats : Statistics) : Watch :=
  ⟨.start interval now, stats, []⟩

def step (o : Watch) : Occasion → Watch
  | .update u => { o with stats := o.stats.update u }
  | .tick =>
    { o with
      reporter := o.reporter.tick o.stats.counters
      reports := o.reports ++
        (o.reporter.report? o.stats.counters).toList.map (o.reporter.next, ·) }

def after (o : Watch) (xs : List Occasion) : Watch := xs.foldl step o

def looks (o : Watch) : List Occasion → List Look
  | [] => []
  | .update u :: xs => (o.step (.update u)).looks xs
  | .tick :: xs => (o.stats.counters, o.reporter.next) :: (o.step .tick).looks xs

def updates (xs : List Occasion) : List Update := xs.filterMap Occasion.update?

variable {o : Watch} {xs ys : List Occasion}

theorem after_append (o : Watch) (xs ys : List Occasion) :
    o.after (xs ++ ys) = (o.after xs).after ys := List.foldl_append

theorem looks_append (o : Watch) (xs ys : List Occasion) :
    o.looks (xs ++ ys) = o.looks xs ++ (o.after xs).looks ys := by
  induction xs generalizing o with
  | nil => rfl
  | cons x xs ih =>
    have hstep := ih (o.step x)
    cases x with
    | update u => exact hstep
    | tick => exact congrArg _ hstep

@[simp] theorem updates_append (xs ys : List Occasion) :
    updates (xs ++ ys) = updates xs ++ updates ys := List.filterMap_append

@[simp] theorem updates_ticks (k : Nat) : updates (List.replicate k .tick) = [] := by
  simp [updates, List.filterMap_replicate, Occasion.update?]

@[simp] theorem updates_map_update (us : List Update) : updates (us.map .update) = us := by
  simp [updates, List.filterMap_map, Function.comp_def, Occasion.update?]

theorem after_updates (o : Watch) (us : List Update) :
    o.after (us.map .update) = { o with stats := o.stats.after us } := by
  induction us generalizing o with
  | nil => rfl
  | cons u us ih => exact ih (o.step (.update u))

theorem looks_updates (o : Watch) (us : List Update) : o.looks (us.map .update) = [] := by
  induction us generalizing o with
  | nil => rfl
  | cons u us ih => exact ih (o.step (.update u))

/-- The reports due before an instant, while nothing is recorded, are those of as many ticks. -/
theorem exists_ticks (o : Watch) (t : Instant) (n : Nat) :
    ∃ k, o.after (List.replicate k .tick) =
        { o with
          reporter := (o.reporter.reportsBefore t o.stats.counters n).2
          reports := o.reports ++ (o.reporter.reportsBefore t o.stats.counters n).1 } ∧
      ∀ look ∈ o.looks (List.replicate k .tick), look.2 < t := by
  induction n generalizing o with
  | zero => exact ⟨0, by simp [Reporter.reportsBefore, after], nofun⟩
  | succ n ih =>
    rw [Reporter.reportsBefore]
    split
    · next hlt =>
      obtain ⟨k, hafter, hlooks⟩ := ih (o.step .tick)
      refine ⟨k + 1, ?_, ?_⟩
      · have hsucc : o.after (List.replicate (k + 1) .tick) =
            (o.step .tick).after (List.replicate k .tick) := rfl
        rw [hsucc, hafter]
        simp [step]
      · intro look hlook
        rcases List.mem_cons.mp hlook with rfl | hlook
        · exact hlt
        · exact hlooks look hlook
    · exact ⟨0, by simp [after], nofun⟩

theorem report?_map (r : Reporter) (current : Snapshot) {earlier : Look}
    (hlast : r.last = some earlier) :
    (r.report? current).map (r.next, ·) = Look.report? (earlier, (current, r.next)) := by
  unfold Reporter.report? Look.report?
  rw [hlast]
  by_cases hzero : current = .zero <;> simp [hzero]

theorem reports_after (o : Watch) (xs : List Occasion) : (o.after xs).reports =
    o.reports ++ (Look.gaps (o.reporter.last.toList ++ o.looks xs)).filterMap Look.report? := by
  induction xs generalizing o with
  | nil => cases o.reporter.last <;> simp [after, looks, Look.gaps]
  | cons x xs ih =>
    have hafter : o.after (x :: xs) = (o.step x).after xs := rfl
    rw [hafter, ih]
    cases x with
    | update u => rfl
    | tick =>
      cases hlast : o.reporter.last with
      | none => simp [looks, step, Reporter.report?, Reporter.tick, hlast]
      | some earlier =>
        have hgaps : Look.gaps (earlier :: o.looks (.tick :: xs)) =
            (earlier, (o.stats.counters, o.reporter.next)) ::
              Look.gaps ((o.stats.counters, o.reporter.next) :: (o.step .tick).looks xs) := rfl
        have hreports : (o.step .tick).reports = o.reports ++
            (Look.report? (earlier, (o.stats.counters, o.reporter.next))).toList := by
          rw [← report?_map _ _ hlast]
          cases hreport : o.reporter.report? o.stats.counters <;> simp [step, hreport]
        have hnext : (o.step .tick).reporter.last =
            some (o.stats.counters, o.reporter.next) := rfl
        rw [Option.toList_some, List.singleton_append, hgaps, hreports, hnext, Option.toList_some,
          List.singleton_append, List.append_assoc]
        cases hreport : Look.report? (earlier, (o.stats.counters, o.reporter.next)) with
        | none => rw [List.filterMap_cons_none hreport]; rfl
        | some report => rw [List.filterMap_cons_some hreport]; rfl

theorem grows_looks (h : o.stats.HasRoom (updates xs)) :
    (∀ look ∈ o.looks xs, o.stats.counters.Le look.1) ∧ Look.Grows (o.looks xs) := by
  induction xs generalizing o with
  | nil => exact ⟨nofun, List.Pairwise.nil⟩
  | cons x xs ih =>
    cases x with
    | update u =>
      obtain ⟨hle, hroom⟩ := h.step
      obtain ⟨hall, hgrows⟩ := ih (o := o.step (.update u)) hroom
      exact ⟨fun look hlook => hle.trans (hall look hlook), hgrows⟩
    | tick =>
      obtain ⟨hall, hgrows⟩ := ih (o := o.step .tick) h
      refine ⟨fun look hlook => ?_, List.pairwise_cons.mpr ⟨hall, hgrows⟩⟩
      rcases List.mem_cons.mp hlook with rfl | hlook
      · exact .refl _
      · exact hall look hlook

theorem looks_due (o : Watch) (xs : List Occasion) :
    (o.looks xs).map (·.2) = (List.range (o.looks xs).length).map o.reporter.due ∧
      (o.after xs).reporter.next = o.reporter.due (o.looks xs).length := by
  induction xs generalizing o with
  | nil => exact ⟨rfl, rfl⟩
  | cons x xs ih =>
    obtain ⟨hlooks, hnext⟩ := ih (o.step x)
    cases x with
    | update u => exact ⟨hlooks, hnext⟩
    | tick =>
      have hdue : ∀ k, (o.step .tick).reporter.due k = o.reporter.due (k + 1) := by
        intro k
        induction k with
        | zero => rfl
        | succ k ih => exact congrArg (Instant.wake · o.reporter.interval) ih
      refine ⟨?_, hnext.trans (hdue _)⟩
      rw [looks, List.map_cons, hlooks, List.length_cons, List.range_succ_eq_map, List.map_cons,
        List.map_map]
      exact congrArg _ (List.map_congr_left fun k _ => hdue k)

/-- What reports tell of what is seen at ticks: all of it, and nothing twice. -/
structure Tells (looks : List Look) (reports : List (Instant × IntervalReport)) : Prop where
  gaps : reports = (Look.gaps looks).filterMap Look.report?
  /-- The first tick is told nothing of; every later one is, once something is counted. -/
  instants : reports.map (·.1) = (looks.tail.filter (·.1 ≠ .zero)).map (·.2)
  gains : ∀ first last, looks.head? = some first → looks.getLast? = some last → ∀ c : Counter,
    (c.of first.1).toNat + Look.gain c looks = (c.of last.1).toNat
  errors : ∀ first last, looks.head? = some first → looks.getLast? = some last →
    first.1.errors.toNat + Look.errors reports = last.1.errors.toNat
  /-- Where nothing is told, nothing is lost. -/
  silent : ∀ p ∈ Look.gaps looks, Look.report? p = none → p.2.1.since p.1.1 = .zero
  /-- A report is about its own interval. -/
  each : ∀ p ∈ Look.gaps looks, ∀ report, Look.report? p = some report →
    report.2.errors.toNat = p.2.1.errors.toNat - p.1.1.errors.toNat ∧
    report.2.ok.toNat = (p.2.1.requests.toNat - p.1.1.requests.toNat) -
      (p.2.1.errors.toNat - p.1.1.errors.toNat) ∧
    report.2.meanLatency = .ofMicros ((p.2.1.micros.toNat - p.1.1.micros.toNat) /
      (p.2.1.requests.toNat - p.1.1.requests.toNat))

theorem tells_of_hasRoom {interval : Duration} {now : Instant} {stats : Statistics}
    (h : stats.HasRoom (updates xs)) :
    Tells ((start interval now stats).looks xs) ((start interval now stats).after xs).reports := by
  have hreports : ((start interval now stats).after xs).reports =
      (Look.gaps ((start interval now stats).looks xs)).filterMap Look.report? :=
    reports_after _ xs
  have hgrows := (grows_looks (o := start interval now stats) h).2
  rw [hreports]
  constructor
  case gaps => rfl
  case instants => exact Look.map_report?_gaps _
  case gains => exact fun first last hfirst hlast c => hgrows.add_gain c hfirst hlast
  case errors =>
    intro first last hfirst hlast
    rw [Look.errors_filterMap_report?]
    exact hgrows.add_gain .errors hfirst hlast
  case silent =>
    intro p _ hnone
    unfold Look.report? at hnone
    split at hnone
    · next hzero => rw [hzero, Snapshot.zero_since]
    · cases hnone
  case each =>
    intro p _ report hreport
    unfold Look.report? at hreport
    split at hreport
    · cases hreport
    · cases hreport
      simp [IntervalReport.between, Snapshot.since, Snapshot.ok, Snapshot.meanLatency,
        Snapshot.toNat_excess]

end Watch

end PhasedLoad
