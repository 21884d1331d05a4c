import PhasedLoad.Proofs.Group.Course

/-! Who is in a group and what it does: its workers have their numbers, and nothing but their calls
and the replies to them stands in the history of the group, beside lines of the log. -/

namespace PhasedLoad

def GroupRun.Has (run : GroupRun) (number : Nat) : Prop := 1 ≤ number ∧ number ≤ run.instances

/-- An event of the group: a line of the log, or a call of one of its workers or the reply to it. -/
def GroupRun.Owns (run : GroupRun) (event : Event) : Prop :=
  event.isLine = true ∨ ∃ number, run.Has number ∧
    (event = .called (.worker run.name.group number) run.call ∨
      ∃ took reply stopped, event = .answered (.worker run.name.group number) took reply stopped)

namespace GroupState

variable {σ : Type} {env : Environment σ} {run : GroupRun} {deadline : Option Instant}
  {s t : GroupState σ} {v : Worker}

def numbers (s : GroupState σ) : List Nat := s.workers.map (·.number)

theorem numbers_put {v' : Worker} : (s.put v').numbers = s.numbers := by
  simp only [numbers, put, List.map_map]
  apply List.map_congr_left
  intro u _
  simp only [Function.comp_apply]
  split
  · next h => exact h.symm
  · rfl

theorem numbers_drop : (s.drop v).numbers = s.numbers.filter (· != v.number) := by
  simp [numbers, drop, List.filter_map, Function.comp_def]

theorem exists_split (hnodup : s.numbers.Nodup) (hv : v ∈ s.workers) :
    ∃ l r, s.workers = l ++ v :: r ∧ (∀ u ∈ l ++ r, u.number ≠ v.number) ∧
      (∀ v', v'.number = v.number → (s.put v').workers = l ++ v' :: r) ∧
      (s.drop v).workers = l ++ r := by
  obtain ⟨l, r, hsplit⟩ := List.append_of_mem hv
  rw [numbers, hsplit, List.map_append, List.map_cons, List.nodup_append] at hnodup
  obtain ⟨-, hr, hlr⟩ := hnodup
  have hleft : ∀ u ∈ l, u.number ≠ v.number := fun u hu =>
    hlr _ (List.mem_map_of_mem hu) _ List.mem_cons_self
  have hright : ∀ u ∈ r, u.number ≠ v.number := fun u hu heq =>
    (List.nodup_cons.mp hr).1 (heq ▸ List.mem_map_of_mem hu)
  refine ⟨l, r, hsplit, ?_, ?_, ?_⟩
  · intro u hu
    exact (List.mem_append.mp hu).elim (hleft u) (hright u)
  · intro v' hnumber
    have hkeep : ∀ k : List Worker, (∀ u ∈ k, u.number ≠ v.number) →
        k.map (fun u => if u.number = v.number then v' else u) = k := by
      intro k hk
      calc
        _ = k.map id := List.map_congr_left fun u hu => by simp [hk u hu]
        _ = k := List.map_id k
    simp [put, hsplit, hkeep l hleft, hkeep r hright, hnumber]
  · have hkeep : ∀ k : List Worker, (∀ u ∈ k, u.number ≠ v.number) →
        k.filter (fun u => u.number != v.number) = k := fun k hk =>
      List.filter_eq_self.mpr fun u hu => by simp [hk u hu]
    simp [drop, hsplit, hkeep l hleft, hkeep r hright]

theorem Acts.numbers_sublist (ha : Acts env run deadline s v t) :
    t.numbers.Sublist s.numbers := by
  have hput : ∀ v' : Worker, t.workers = (s.put v').workers → t.numbers.Sublist s.numbers := by
    intro v' h
    have hnumbers : t.numbers = s.numbers := by rw [numbers, h, ← numbers, numbers_put]
    exact hnumbers ▸ List.Sublist.refl _
  have hdrop : t.workers = (s.drop v).workers → t.numbers.Sublist s.numbers := by
    intro h
    rw [numbers, h, ← numbers, numbers_drop]
    exact List.filter_sublist
  cases ha with
  | called _ _ _ hworkers _ => exact hput _ hworkers
  | responded _ _ _ _ hworkers _ _ => exact hput _ hworkers
  | failed _ _ _ _ _ _ hworkers _ _ => exact hput _ hworkers
  | ended _ _ _ _ _ hworkers _ _ => exact hdrop hworkers
  | panicked _ _ _ _ hworkers _ => exact hdrop hworkers

/-- A turn is one event of the worker's, followed by lines of the log. -/
theorem Acts.past_eq (ha : Acts env run deadline s v t) :
    ∃ h e, t.past = h ++ e :: s.past ∧ s.LinesNow h ∧
      (e.event = .called (run.caller v) run.call ∨
        ∃ took reply stopped, e.event = .answered (run.caller v) took reply stopped) := by
  cases ha with
  | called _ _ _ _ hpast => exact ⟨[], _, hpast, by simp [LinesNow], .inl rfl⟩
  | responded _ _ _ _ _ hlines hpast => exact ⟨_, _, hpast, hlines, .inr ⟨_, _, _, rfl⟩⟩
  | failed _ _ _ _ _ _ _ hlines hpast => exact ⟨_, _, hpast, hlines, .inr ⟨_, _, _, rfl⟩⟩
  | ended _ _ _ _ _ _ hlines hpast => exact ⟨_, _, hpast, hlines, .inr ⟨_, _, _, rfl⟩⟩
  | panicked _ _ _ _ _ hpast => exact ⟨[], _, hpast, by simp [LinesNow], .inr ⟨_, _, _, rfl⟩⟩

structure Roster (run : GroupRun) (s : GroupState σ) : Prop where
  paced : s.Paced
  nodup : s.numbers.Nodup
  has : ∀ number ∈ s.numbers, run.Has number
  owns : ∀ e ∈ s.past, run.Owns e.event

theorem roster_start (run : GroupRun) (w : World σ) (stats : Statistics) :
    Roster run (startOf run w stats) := by
  have hnumbers : (startOf run w stats).numbers = (List.range run.instances).map (· + 1) := by
    simp [numbers, startOf, log, note, start, GroupRun.worker]
  refine ⟨(sound_start run w stats).paced, ?_, ?_, ?_⟩
  · rw [hnumbers]
    exact List.pairwise_map.mpr (List.nodup_range.imp fun hne hab => hne (Nat.succ.inj hab))
  · intro number hn
    rw [hnumbers] at hn
    obtain ⟨i, hi, rfl⟩ := List.mem_map.mp hn
    have hlt := List.mem_range.mp hi
    exact ⟨by omega, by omega⟩
  · intro e he
    obtain rfl := List.mem_singleton.mp he
    exact .inl rfl

theorem Roster.advance (hs : Roster run s) (due : Instant) : Roster run (s.advance run due) := by
  obtain ⟨h, reporter, broken, heq, hlines, -, hpaced⟩ := advance_eq hs.paced run due
  refine ⟨hpaced, ?_, ?_, ?_⟩
  · rw [heq]; exact hs.nodup
  · rw [heq]; exact hs.has
  · rw [heq]
    intro e he
    rcases List.mem_append.mp he with he | he
    · exact .inl (hlines e he)
    · exact hs.owns e he

theorem Roster.step (env : Environment σ) (hs : Roster run s)
    (h : s.settled? run deadline = none) : Roster run (s.step env run deadline) := by
  obtain ⟨v, hv, -, -, hacts, hpaced⟩ := step_cases env hs.paced h
  have ht := hs.advance v.due
  have hsublist := hacts.numbers_sublist
  obtain ⟨lines, e, hpast, hlines, hevent⟩ := hacts.past_eq
  have hnumber : run.Has v.number := hs.has _ (List.mem_map_of_mem hv)
  refine ⟨hpaced, hsublist.nodup ht.nodup, fun n hn => ht.has n (hsublist.subset hn), ?_⟩
  rw [hpast]
  intro d hd
  rcases List.mem_append.mp hd with hd | hd
  · exact .inl (hlines d hd).1
  · rcases List.mem_cons.mp hd with rfl | hd
    · exact .inr ⟨v.number, hnumber, hevent⟩
    · exact ht.owns d hd

end GroupState

namespace GroupRun

variable {σ : Type} {env : Environment σ} {turns : Nat} {run : GroupRun} {outer : Option Instant}
  {w : World σ} {stats : Statistics} {out : GroupOutcome σ}

open GroupState

theorem perform_owns (h : run.perform env turns outer w stats = some out) :
    ∀ e ∈ out.history, run.Owns e.event := by
  obtain ⟨u, lines, hu, hhistory, hlines, -⟩ := perform_induction (P := Roster run)
    (roster_start run w stats) (fun _ hs hn => hs.step env hn) (fun _ due hs => hs.advance due) h
  intro e he
  rw [hhistory, List.mem_append, List.mem_reverse] at he
  rcases he with he | he
  · exact hu.owns e he
  · exact .inl (hlines e he)

end GroupRun

end PhasedLoad
