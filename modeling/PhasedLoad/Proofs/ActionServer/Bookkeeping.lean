import PhasedLoad.Proofs.ActionServer.Service

/-! What an action server tells about the requests it handled at the same time, and how it answers
them: neither depends on the order in which the handlings take their turns. -/

namespace PhasedLoad.ActionServer

open Http

/-- Every character is a tab or printed by ASCII. -/
def Visible (v : String) : Prop := ∀ c ∈ v.toList, 0x20 ≤ c.toNat ∧ c.toNat < 0x7F ∨ c = '\t'

instance (v : String) : Decidable (Visible v) :=
  inferInstanceAs (Decidable (∀ c ∈ v.toList, 0x20 ≤ c.toNat ∧ c.toNat < 0x7F ∨ c = '\t'))

namespace Arrival

/-- The first value of the content type can be seen and begins with that of JSON, in letters of
either case. -/
def SaysJson (a : Arrival) : Prop :=
  ∃ v, a.headers.value? "content-type" = some v ∧ Visible v ∧
    "application/json".toList <+: Text.lower v

def actionName? (a : Arrival) : Option String := (Action.ofBody? a.body).bind (·.name)

variable {a : Arrival}

theorem visible?_eq_some_iff {name v : String} :
    a.visible? name = some v ↔ a.headers.value? name = some v ∧ Visible v := by
  simp [visible?, Visible]

theorem isJson_iff : a.isJson = true ↔ a.SaysJson := by
  rw [isJson, Option.any_eq_true]
  exact exists_congr fun v => by rw [visible?_eq_some_iff, List.isPrefixOf_iff_prefix, and_assoc]

instance : DecidablePred SaysJson := fun _ => decidable_of_iff _ isJson_iff

/-- Whether the request is one of those that are counted as `m`. -/
def bears (a : Arrival) : Mark → Bool
  | .request => true
  | .json => a.SaysJson
  | .host h => a.headers.value? "host" = some h ∧ Visible h
  | .action n => a.actionName? = some n

theorem marks_eq (a : Arrival) :
    a.marks = .request :: (if a.isJson then [.json] else []) ++
      ((a.visible? "host").map .host).toList ++ (a.actionName?.map .action).toList := rfl

theorem count_toList (o : Option Mark) (m : Mark) :
    o.toList.count m = if o = some m then 1 else 0 := by
  cases o with
  | none => rfl
  | some k => simp [List.count_singleton]

theorem count_marks (a : Arrival) (m : Mark) : a.marks.count m = if a.bears m then 1 else 0 := by
  rw [marks_eq]
  cases m with
  | request => simp [bears, count_toList, apply_ite (List.count _)]
  | json => simp [bears, count_toList, apply_ite (List.count _), isJson_iff]
  | host h => simp [bears, count_toList, apply_ite (List.count _), visible?_eq_some_iff]
  | action n => simp [bears, count_toList, apply_ite (List.count _)]

theorem count_flatMap_marks (as : List Arrival) (m : Mark) :
    (as.flatMap marks).count m = as.countP (·.bears m) := by
  induction as with
  | nil => rfl
  | cons a as ih =>
    rw [List.flatMap_cons, List.count_append, List.countP_cons, ih, count_marks, Nat.add_comm]

end Arrival

namespace Tally

variable {t : Tally} {as : List Arrival}

/-- What tallies tell about requests of which nothing is left to be noted. -/
structure Tells (t : Tally) (as : List Arrival) : Prop where
  requests : t.requests = as.length
  json : t.json = as.countP (·.SaysJson)
  /-- A host that cannot be seen counts for none. -/
  host : ∀ h, t.hosts.count h =
    if Visible h then as.countP (·.headers.value? "host" = some h) else 0
  action : ∀ n, t.actions.count n = as.countP (·.actionName? = some n)

theorem tells_of_count (h : ∀ m, t.count m = as.countP (·.bears m)) : t.Tells as where
  requests := (h .request).trans (congrFun List.countP_true as)
  json := h .json
  host name := by
    rw [show t.hosts.count name = as.countP (·.bears (.host name)) from h (.host name)]
    by_cases hvisible : Visible name <;> simp [Arrival.bears, hvisible]
  action name := h (.action name)

theorem count_foldl_receive (t : Tally) (has : ∀ a ∈ as, a.isAction = true) (m : Mark) :
    (as.foldl receive t).count m = t.count m + as.countP (·.bears m) := by
  induction as generalizing t with
  | nil => rfl
  | cons a as ih =>
    have ha : t.receive a = t.noteAll a.marks := if_pos (has a List.mem_cons_self)
    rw [List.foldl_cons, ih _ fun b hb => has b (List.mem_cons_of_mem _ hb), ha, count_noteAll,
      Arrival.count_marks, List.countP_cons, Nat.add_assoc, Nat.add_comm (List.countP _ _)]

end Tally

/-- How a body is answered, and how many milliseconds that takes. -/
inductive Answers (body : List UInt8) : Response → Nat → Prop
  | undecodable (fails : Action.ofBody? body = none) :
      Answers body ⟨400, Text.utf8 "bad json"⟩ 0
  | rejected {x : Action} (decodes : Action.ofBody? body = some x) (status : x.status = some 400) :
      Answers body ⟨400, Text.utf8 "rejected by request"⟩ (x.sleep.getD 0)
  | asked {x : Action} {n : Nat} (decodes : Action.ofBody? body = some x)
      (status : x.status = some n) (range : 100 ≤ n ∧ n ≤ 999) (accepted : n ≠ 400) :
      Answers body ⟨n, Text.utf8 "\x7b\x7d"⟩ (x.sleep.getD 0)
  | plain {x : Action} (decodes : Action.ofBody? body = some x)
      (status : ∀ n, x.status = some n → ¬(100 ≤ n ∧ n ≤ 999)) :
      Answers body ⟨200, Text.utf8 "\x7b\x7d"⟩ (x.sleep.getD 0)

theorem Answers.unique {body : List UInt8} {r r' : Response} {pause pause' : Nat}
    (h : Answers body r pause) (h' : Answers body r' pause') : r = r' ∧ pause = pause' := by
  cases h <;> cases h' <;> grind

namespace Arrival

theorem answers_answer {a : Arrival} {x : Action} (h : Action.ofBody? a.body = some x) :
    Answers a.body x.answer (x.sleep.getD 0) := by
  unfold Action.answer Action.answerStatus
  cases hstatus : x.status with
  | none => exact .plain h fun n hn => by simp [hstatus] at hn
  | some n =>
    dsimp only
    split
    · next hrange =>
      split
      · next hrejected =>
        subst hrejected
        exact .rejected h hstatus
      · next haccepted => exact .asked h hstatus hrange haccepted
    · next hrange =>
      refine .plain h fun k hk => ?_
      rw [hstatus, Option.some.injEq] at hk
      exact hk ▸ hrange

theorem exists_answers (a : Arrival) :
    ∃ pause, Answers a.body a.handled.1 pause ∧ a.handled.2 = .ofMillis pause := by
  unfold handled action?
  cases h : Action.ofBody? a.body with
  | none => exact ⟨0, .undecodable h, rfl⟩
  | some x => exact ⟨x.sleep.getD 0, answers_answer h, rfl⟩

end Arrival

namespace Handling

/-- A handling that has replied gave the answer to its body, and waited as long as that takes if the
clock can show it. -/
def Answered (x : Handling) : Prop :=
  ∀ instant response, x.stage = .replied instant response →
    ∃ pause, Answers x.arrival.body response pause ∧
      (x.since + pause * 10 ^ 6 < Instant.limit → instant = x.since + pause * 10 ^ 6)

theorem Stands.answered {x : Handling} {now : Instant} (hx : x.Stands now) : x.Answered := by
  intro instant response hreplied
  cases hx with
  | noting hstage => simp [hstage] at hreplied
  | asleep hstage => simp [hstage] at hreplied
  | replied hstage =>
    rw [hstage] at hreplied
    cases hreplied
    obtain ⟨pause, hanswers, hlatency⟩ := x.arrival.exists_answers
    refine ⟨pause, hanswers, fun hshown => ?_⟩
    have hnanos : x.arrival.handled.2.nanos = pause * 10 ^ 6 := by
      rw [hlatency]
      refine Duration.ofNanos_nanos_of_lt ?_
      simp only [Instant.limit, Duration.limit] at hshown ⊢
      omega
    rw [← hnanos] at hshown ⊢
    exact due_eq hshown

end Handling

def requests (acts : List Act) : List Arrival :=
  acts.filterMap fun
    | .arrive a => some a
    | _ => none

namespace Service

variable {s t : Service} {acts acts' : List Act}

theorem arrivals_of_step? {act : Act} (h : s.step? act = some t) :
    t.arrivals = s.arrivals ++ requests [act] := by
  cases act with
  | arrive a =>
    obtain ⟨-, h⟩ := Option.ite_none_right_eq_some.mp h
    cases h
    simp [arrivals, requests]
  | turn place =>
    obtain ⟨x, hx, h⟩ := Option.bind_eq_some_iff.mp h
    obtain ⟨⟨marks, y⟩, hturn, h⟩ := Option.bind_eq_some_iff.mp h
    cases h
    obtain ⟨harrival, -, -⟩ := Handling.turn?_spec hturn
    obtain ⟨hlt, rfl⟩ := List.getElem?_eq_some_iff.mp hx
    have hlt' : place < s.arrivals.length := by simpa [arrivals] using hlt
    rw [arrivals, List.map_set, harrival, ← List.getElem_map (f := Handling.arrival)]
    exact (List.set_getElem_self hlt').trans (List.append_nil _).symm
  | pass u =>
    obtain ⟨-, h⟩ := Option.ite_none_right_eq_some.mp h
    cases h
    simp [arrivals, requests]

theorem arrivals_of_steps? (h : s.steps? acts = some t) :
    t.arrivals = s.arrivals ++ requests acts := by
  induction acts generalizing s with
  | nil =>
    cases h
    exact (List.append_nil _).symm
  | cons act acts ih =>
    rw [steps?_cons] at h
    obtain ⟨u, hu, h⟩ := Option.bind_eq_some_iff.mp h
    rw [ih h, arrivals_of_step? hu, List.append_assoc, requests, requests, requests,
      ← List.filterMap_append, List.singleton_append]

theorem arrivals_of_reached (h : start.steps? acts = some s) : s.arrivals = requests acts :=
  (arrivals_of_steps? h).trans (List.nil_append _)

/-- When nothing is left to be noted, each mark was noted for the requests that bear it. -/
theorem count_tally (h : start.steps? acts = some s) (hs : s.Settled) (m : Mark) :
    s.tally.count m = (requests acts).countP (·.bears m) := by
  have hpending : s.handlings.flatMap (·.pending) = [] :=
    List.flatMap_eq_nil_iff.mpr fun x hx => Handling.pending_of_isSettled (hs x hx)
  have hbalance := (Reached.formed ⟨acts, h⟩).balance m
  rw [hpending, List.count_nil, Nat.add_zero] at hbalance
  rw [hbalance, ← arrivals_of_reached h, ← Arrival.count_flatMap_marks, arrivals, List.flatMap_map]

/-- However the handlings of requests take their turns: once each has come to its sleep or its
reply, the tallies tell what arrived, as they do if the requests are received one after the other,
and whatever order they arrived in; each reply is the answer to its body, on which alone it depends;
and all the replies can come. -/
theorem bookkeeping (h : start.steps? acts = some s) :
    (s.Settled →
      s.tally.Tells (requests acts) ∧
      (∀ m, s.tally.count m = ((requests acts).foldl Tally.receive .empty).count m) ∧
      ∀ acts' t, start.steps? acts' = some t → t.Settled →
        (requests acts').Perm (requests acts) → ∀ m, t.tally.count m = s.tally.count m) ∧
    s.arrivals = requests acts ∧
    (∀ x ∈ s.handlings, x.Answered) ∧
    (∀ body r pause r' pause', Answers body r pause → Answers body r' pause' →
      r = r' ∧ pause = pause') ∧
    ∃ more t, s.steps? more = some t ∧ t.arrivals = s.arrivals ∧
      ∀ x ∈ t.handlings, x.isReplied = true := by
  have hformed := Reached.formed ⟨acts, h⟩
  refine ⟨fun hsettled => ⟨Tally.tells_of_count (count_tally h hsettled), fun m => ?_, ?_⟩,
    arrivals_of_reached h, fun x hx => (hformed.stands x hx).answered,
    fun _ _ _ _ _ => Answers.unique, ?_⟩
  · have haction : ∀ a ∈ requests acts, a.isAction = true := by
      rw [← arrivals_of_reached h]
      intro a ha
      obtain ⟨x, hx, rfl⟩ := List.mem_map.mp ha
      exact hformed.isAction x hx
    rw [count_tally h hsettled, Tally.count_foldl_receive _ haction]
    cases m <;> exact (Nat.zero_add _).symm
  · intro acts' t ht htsettled hperm m
    rw [count_tally ht htsettled, count_tally h hsettled, hperm.countP_eq]
  · obtain ⟨more, t, hmore, hreplied, harrivals⟩ := exists_replied s
    exact ⟨more, t, hmore, harrivals, hreplied⟩

/-- Two requests under way at the same time. The host of the second one cannot be seen. -/
def twoRequests : List Act :=
  [.arrive ⟨"POST", "/", [("Content-Type", "Application/JSON; charset=utf-8"), ("host", "a:1")],
      Text.utf8 "\x7b\"name\":\"slow\",\"status\":400,\"sleep_ms\":5\x7d"⟩,
    .turn 0,
    .arrive ⟨"POST", "/?again", [("Host", "é")], Text.utf8 "oops"⟩,
    .turn 1, .turn 0, .turn 1, .turn 0, .turn 0, .turn 0, .pass 5000000, .turn 0]

theorem twoRequests_told : ∃ s, start.steps? twoRequests = some s ∧ s.Settled ∧
    s.tally = ⟨2, 1, [("a:1", 1)], [("slow", 1)]⟩ ∧
    s.handlings.map (·.stage) = [.replied 5000000 ⟨400, Text.utf8 "rejected by request"⟩,
      .replied 0 ⟨400, Text.utf8 "bad json"⟩] ∧
    s.tally.Tells (requests twoRequests) ∧ ∀ x ∈ s.handlings, x.Answered := by
  have hview : (start.steps? twoRequests).map (fun s =>
      (decide s.Settled, s.tally, s.handlings.map (·.stage))) =
      some (true, ⟨2, 1, [("a:1", 1)], [("slow", 1)]⟩,
        [.replied 5000000 ⟨400, Text.utf8 "rejected by request"⟩,
          .replied 0 ⟨400, Text.utf8 "bad json"⟩]) := by
    decide +kernel
  obtain ⟨s, hs, hview⟩ := Option.map_eq_some_iff.mp hview
  simp only [Prod.mk.injEq, decide_eq_true_eq] at hview
  obtain ⟨hsettled, htally, hstages⟩ := hview
  obtain ⟨htells, -, hanswered, -⟩ := bookkeeping hs
  exact ⟨s, hs, hsettled, htally, hstages, (htells hsettled).1, hanswered⟩

/-- The tallies do not count every host that was given: one that cannot be seen is left out. -/
theorem foreign_host_not_counted : ¬ ∀ acts s, start.steps? acts = some s → s.Settled →
    ∀ h, s.tally.hosts.count h = (requests acts).countP (·.headers.value? "host" = some h) := by
  intro hall
  have hview : (start.steps? [.arrive ⟨"POST", "/", [("host", "é")], Text.utf8 "\x7b\x7d"⟩,
      .turn 0, .turn 0]).map (fun s => (decide s.Settled, s.tally.hosts.count "é")) =
      some (true, 0) := by
    decide +kernel
  obtain ⟨s, hs, hview⟩ := Option.map_eq_some_iff.mp hview
  simp only [Prod.mk.injEq, decide_eq_true_eq] at hview
  have hcount := hall _ s hs hview.1 "é"
  rw [hview.2] at hcount
  exact absurd hcount (by decide +kernel)

end Service

end PhasedLoad.ActionServer
