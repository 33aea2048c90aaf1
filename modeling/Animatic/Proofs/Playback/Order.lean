import Animatic.Proofs.Playback.Accounts
import Animatic.Proofs.Timeline.Tickets

/-!
# The order in which effects are applied

Effects are applied in the order of their tickets, by time and, at one time, as they were scheduled.
A function that lets time pass runs frames in the middle of a frame, and what is due in these is
applied before what the outer frame has still to apply. So just the effects of an earlier frame can
come late.

* `Ordered`: what becomes of tickets, and which of them are applied in which frame.
* `Ordered.append`, `Ordered.act`, `Ordered.of_firings`: the order is kept step by step.
* `ordered_closed`: hence by every course.
* `Played.in_order`: what it comes to in a playback.
-/

namespace Animatic

open Number Playback Script Timeline
open scoped List

variable {σ : Type}

/-! ## Tickets of a stage -/

/-- Tickets of the pending actions of a stage, in order, when a given number of actions has been
scheduled. -/
structure Ticketed (s : Stage σ) (count : Nat) (queue : List Ticket) : Prop where
  pending : queue.map Ticket.action = s.pending
  ordered : queue.Pairwise Ticket.Precedes
  below : ∀ t ∈ queue, t.number < count
  started : 0 ≤ s.scene.clock

/-- A ticket that is due and stands before all that are pending. -/
structure Passed (s : Stage σ) (count : Nat) (queue : List Ticket) (t : Ticket) : Prop where
  due : t.time ≤ s.scene.clock
  below : t.number < count
  first : ∀ q ∈ queue, t.Precedes q

/-- What becomes of tickets between two stages, while a frame applies what is due and other frames
may be run: what is applied, with the frames in which it is, and what is pending in the end. -/
structure Ordered (frame : Nat) (due : List Ticket) (s : Stage σ) (count : Nat)
    (queue : List Ticket) (arrivals : List ScheduledAction) (last : Stage σ)
    (fired : List (Nat × Ticket)) (left : List Ticket) : Prop where
  ticketed : Ticketed last (count + arrivals.length) left
  same : (fired.map Prod.snd ++ left).Perm (due ++ (queue ++ tickets count arrivals))
  /-- A frame that begins meanwhile applies nothing of what was drained before. -/
  source : ∀ f ∈ fired,
    f.1 = frame ∧ f.2 ∈ due ∨ s.frames ≤ f.1 ∧ f.2 ∈ queue ++ tickets count arrivals
  kept : ∀ t ∈ left, t ∈ queue ++ tickets count arrivals
  clock : s.scene.clock ≤ last.scene.clock
  stamps : ∀ a ∈ arrivals, s.scene.clock ≤ a.time
  frames : s.frames ≤ last.frames
  passed : ∀ f ∈ fired, Passed last (count + arrivals.length) left f.2
  /-- What is applied in a frame stands before what is applied after it in the same or a later
  one. -/
  ordered : fired.Pairwise fun a b => a.1 ≤ b.1 → a.2.Precedes b.2

theorem Ticketed.mem_pending {s : Stage σ} {count : Nat} {queue : List Ticket} {t : Ticket}
    (h : Ticketed s count queue) (ht : t ∈ queue) : t.action ∈ s.pending := by
  rw [← h.pending]
  exact List.mem_map_of_mem ht

namespace Passed

variable {s last : Stage σ} {count : Nat} {queue : List Ticket} {t : Ticket}
  {arrivals : List ScheduledAction}

/-- It stands before all that is scheduled from then on. -/
theorem precedes (h : Passed s count queue t) (hstamps : ∀ a ∈ arrivals, s.scene.clock ≤ a.time) :
    ∀ q ∈ queue ++ tickets count arrivals, t.Precedes q := by
  intro q hq
  rcases List.mem_append.mp hq with hq | hq
  · exact h.first q hq
  · obtain ⟨hle, -, hmem⟩ := of_mem_tickets hq
    exact Ticket.precedes_of_lt (le_trans_time h.due (hstamps _ hmem))
      (Nat.lt_of_lt_of_le h.below hle)

/-- It stays so. -/
theorem later {left : List Ticket} (h : Passed s count queue t)
    (hstamps : ∀ a ∈ arrivals, s.scene.clock ≤ a.time)
    (hclock : s.scene.clock ≤ last.scene.clock)
    (hkept : ∀ q ∈ left, q ∈ queue ++ tickets count arrivals) :
    Passed last (count + arrivals.length) left t where
  due := le_trans_time h.due hclock
  below := Nat.lt_of_lt_of_le h.below (Nat.le_add_right _ _)
  first q hq := h.precedes hstamps q (hkept q hq)

end Passed

namespace Ordered

variable {frame count : Nat} {due due' queue queue' left : List Ticket}
  {arrivals arrivals' : List ScheduledAction} {s middle last : Stage σ}
  {fired fired' : List (Nat × Ticket)}

/-- Nothing that matters to the order happens. -/
theorem still (h : Ticketed s count queue) (hpending : last.pending = s.pending)
    (hclock : s.scene.clock ≤ last.scene.clock) (hframes : s.frames ≤ last.frames) :
    Ordered frame [] s count queue [] last [] queue where
  ticketed := ⟨h.pending.trans hpending.symm, h.ordered, h.below, le_trans_time h.started hclock⟩
  same := by
    change queue.Perm (queue ++ [])
    rw [List.append_nil]
  source := nofun
  kept _ ht := List.mem_append_left _ ht
  clock := hclock
  stamps := nofun
  frames := hframes
  passed := nofun
  ordered := .nil

theorem refl (h : Ticketed s count queue) : Ordered frame [] s count queue [] s [] queue :=
  .still h rfl (le_self_of_le h.started) (Nat.le_refl _)

/-- A ticket that has been passed begins to be applied. -/
theorem apply {t : Ticket} (h : Ticketed s count queue) (ht : Passed s count queue t) :
    Ordered frame [t] s count queue [] s [(frame, t)] queue where
  ticketed := h
  same := by
    change (t :: queue).Perm (t :: (queue ++ []))
    rw [List.append_nil]
  source f hf := by
    rw [List.mem_singleton.mp hf]
    exact .inl ⟨rfl, List.mem_singleton_self t⟩
  kept _ hq := List.mem_append_left _ hq
  clock := le_self_of_le h.started
  stamps := nofun
  frames := Nat.le_refl _
  passed f hf := by
    rw [List.mem_singleton.mp hf]
    exact ht
  ordered := List.pairwise_singleton _ _

/-! ### One after the other -/

private theorem perm_append {A A' L Q D D' R N : List Ticket} (h : (A ++ Q).Perm (D ++ R))
    (h' : (A' ++ L).Perm (D' ++ (Q ++ N))) : (A ++ A' ++ L).Perm (D ++ D' ++ (R ++ N)) := calc
  A ++ A' ++ L = A ++ (A' ++ L) := List.append_assoc _ _ _
  _ ~ A ++ (D' ++ (Q ++ N)) := h'.append_left _
  _ ~ D' ++ (A ++ (Q ++ N)) := List.perm_append_comm_assoc _ _ _
  _ = D' ++ ((A ++ Q) ++ N) := by rw [List.append_assoc A]
  _ ~ D' ++ ((D ++ R) ++ N) := (h.append_right _).append_left _
  _ = D' ++ (D ++ (R ++ N)) := by rw [List.append_assoc D]
  _ ~ D ++ (D' ++ (R ++ N)) := List.perm_append_comm_assoc _ _ _
  _ = D ++ D' ++ (R ++ N) := (List.append_assoc _ _ _).symm

private theorem mem_of_mem_first {t : Ticket} (ht : t ∈ queue ++ tickets count arrivals) :
    t ∈ queue ++ tickets count (arrivals ++ arrivals') := by
  rw [tickets_append, ← List.append_assoc]
  exact List.mem_append_left _ ht

private theorem mem_of_mem_rest {t : Ticket}
    (hkept : ∀ t ∈ queue', t ∈ queue ++ tickets count arrivals)
    (ht : t ∈ queue' ++ tickets (count + arrivals.length) arrivals') :
    t ∈ queue ++ tickets count (arrivals ++ arrivals') := by
  rcases List.mem_append.mp ht with ht | ht
  · exact mem_of_mem_first (hkept t ht)
  · rw [tickets_append, ← List.append_assoc]
    exact List.mem_append_right _ ht

/-- First some of what is due, then the rest of it. -/
theorem append (h : Ordered frame due s count queue arrivals middle fired queue')
    (h' : Ordered frame due' middle (count + arrivals.length) queue' arrivals' last fired' left)
    (hdue : (due ++ due').Pairwise Ticket.Precedes) (hframe : ∀ d ∈ due', frame < s.frames) :
    Ordered frame (due ++ due') s count queue (arrivals ++ arrivals') last (fired ++ fired')
      left where
  ticketed := by
    rw [List.length_append, ← Nat.add_assoc]
    exact h'.ticketed
  same := by
    rw [tickets_append, List.map_append, ← List.append_assoc queue]
    exact perm_append h.same h'.same
  source f hf := by
    rcases List.mem_append.mp hf with hf | hf
    · rcases h.source f hf with ⟨hthis, hmem⟩ | ⟨hinner, hmem⟩
      · exact .inl ⟨hthis, List.mem_append_left _ hmem⟩
      · exact .inr ⟨hinner, mem_of_mem_first hmem⟩
    · rcases h'.source f hf with ⟨hthis, hmem⟩ | ⟨hinner, hmem⟩
      · exact .inl ⟨hthis, List.mem_append_right _ hmem⟩
      · exact .inr ⟨h.frames.trans hinner, mem_of_mem_rest h.kept hmem⟩
  kept t ht := mem_of_mem_rest h.kept (h'.kept t ht)
  clock := le_trans_time h.clock h'.clock
  stamps a ha := (List.mem_append.mp ha).elim (h.stamps a) fun ha =>
    le_trans_time h.clock (h'.stamps a ha)
  frames := h.frames.trans h'.frames
  passed f hf := by
    rw [List.length_append, ← Nat.add_assoc]
    rcases List.mem_append.mp hf with hf | hf
    · exact (h.passed f hf).later h'.stamps h'.clock h'.kept
    · exact h'.passed f hf
  ordered := by
    refine List.pairwise_append.mpr ⟨h.ordered, h'.ordered, fun a ha b hb hle => ?_⟩
    rcases h'.source b hb with ⟨hthis, hb⟩ | ⟨-, hb⟩
    · rcases h.source a ha with ⟨-, ha⟩ | ⟨hinner, -⟩
      · exact (List.pairwise_append.mp hdue).2.2 a.2 ha b.2 hb
      · -- a frame that began meanwhile is later than the one that still applies what is due
        have hlt := hframe b.2 hb
        omega
    · exact (h.passed a ha).precedes h'.stamps b.2 hb

/-! ### What is scheduled -/

/-- What is scheduled takes its place among what is pending. -/
theorem act {next : World σ} (hs : s.scene.Running) (h : Ticketed s count queue)
    (hqueued : s.scene.Queued arrivals next.scene) :
    ∃ left, Ordered frame [] s count queue arrivals (s.withWorld next) [] left := by
  have hnumbered : (queue ++ tickets count arrivals).Pairwise fun a b =>
      b.time ≤ a.time → a.number < b.number := by
    refine List.pairwise_append.mpr ⟨h.ordered.imp (·.ties), ?_, fun a ha b hb _ => ?_⟩
    · exact List.Pairwise.imp (fun {a b} (hlt : a.number < b.number) _ => hlt)
        (pairwise_tickets count arrivals)
    · exact Nat.lt_of_lt_of_le (h.below a ha) (of_mem_tickets hb).1
  have htimely : ∀ t ∈ queue ++ tickets count arrivals, Timely t.time := by
    intro t ht
    rcases List.mem_append.mp ht with ht | ht
    · exact hs.ascending.timely t.action (h.mem_pending ht)
    · exact (hqueued.stamps t.action (of_mem_tickets ht).2.2).1.timely
  have hactions : s.scene.timeline.actions ++ arrivals =
      (queue ++ tickets count arrivals).map Ticket.action := by
    rw [List.map_append, h.pending, map_action_tickets]
  have hqueue := hqueued.queue
  rw [hactions] at hqueue
  obtain ⟨left, hleft, hperm, hordered⟩ := hqueue.exists_tickets htimely hnumbered
  have hclock : s.scene.clock ≤ next.scene.clock := by
    rw [hqueued.clock]
    exact le_self_of_le h.started
  have hbelow : ∀ t ∈ left, t.number < count + arrivals.length := by
    intro t ht
    rcases List.mem_append.mp (hperm.mem_iff.mp ht) with ht | ht
    · exact Nat.lt_of_lt_of_le (h.below t ht) (Nat.le_add_right _ _)
    · exact (of_mem_tickets ht).2.1
  exact ⟨left, {
    ticketed := ⟨hleft, hordered, hbelow, le_trans_time h.started hclock⟩
    same := hperm
    source := nofun
    kept := fun t ht => hperm.mem_iff.mp ht
    clock := hclock
    stamps := fun a ha => (hqueued.stamps a ha).2
    frames := Nat.le_refl _
    passed := nofun
    ordered := .nil }⟩

/-! ### Frames -/

private theorem mem_of_mem_filter {t : Ticket} {p : Ticket → Bool}
    (ht : t ∈ queue.filter p ++ tickets count arrivals) :
    t ∈ queue ++ tickets count arrivals :=
  List.mem_append.mpr ((List.mem_append.mp ht).imp_left List.mem_of_mem_filter)

/-- What is due in a frame is applied in the frame, before it ends. -/
theorem of_firings {stage : Stage σ} {dt : Float} {moved : Scene} {entries : List LogEntry}
    (hclock : s.scene.clock ≤ (s.enterFrame dt).scene.clock)
    (h : Ordered s.frames (queue.filter (·.time ≤ (s.enterFrame dt).scene.clock))
      (s.enterFrame dt) count (queue.filter (¬ ·.time ≤ (s.enterFrame dt).scene.clock)) arrivals
      stage fired left) (hsame : stage.scene.SameTime moved) :
    Ordered frame [] s count queue arrivals
      (stage.withWorld (stage.world.animated moved entries)) fired left where
  ticketed := by
    have hpending : moved.timeline.actions = stage.pending :=
      congrArg Timeline.actions hsame.timeline
    exact ⟨h.ticketed.pending.trans hpending.symm, h.ticketed.ordered, h.ticketed.below,
      hsame.clock ▸ h.ticketed.started⟩
  same := by
    have hsplit : (queue.filter (·.time ≤ (s.enterFrame dt).scene.clock) ++
        queue.filter (¬ ·.time ≤ (s.enterFrame dt).scene.clock)).Perm queue := by
      simpa only [decide_not] using List.filter_append_perm
        (fun t : Ticket => decide (t.time ≤ (s.enterFrame dt).scene.clock)) queue
    refine h.same.trans ?_
    rw [← List.append_assoc]
    exact hsplit.append_right _
  source f hf := by
    rcases h.source f hf with ⟨hthis, hmem⟩ | ⟨hinner, hmem⟩
    · have hmem := List.mem_of_mem_filter hmem
      exact .inr ⟨Nat.le_of_eq hthis.symm, List.mem_append_left _ hmem⟩
    · exact .inr ⟨Nat.le_of_succ_le hinner, mem_of_mem_filter hmem⟩
  kept t ht := mem_of_mem_filter (h.kept t ht)
  clock := le_trans_time hclock (hsame.clock ▸ h.clock)
  stamps a ha := le_trans_time hclock (h.stamps a ha)
  frames := Nat.le_of_succ_le h.frames
  passed f hf := by
    have hpassed := h.passed f hf
    exact ⟨hsame.clock ▸ hpassed.due, hpassed.below, hpassed.first⟩
  ordered := h.ordered

end Ordered

/-! ## Courses -/

section

variable {s : Stage σ} {count : Nat} {queue : List Ticket} (h : Ticketed s count queue)
  (hs : s.scene.Standing) {dt : Float}

include h hs

theorem Ticketed.map_due : (queue.filter (·.time ≤ (s.enterFrame dt).scene.clock)).map
    Ticket.action = s.scene.dueWithin dt := by
  rw [Scene.dueWithin_eq hs, show s.scene.timeline.actions = queue.map Ticket.action from
    h.pending.symm, List.filter_map]
  rfl

/-- The tickets of what is left in a frame. -/
theorem Ticketed.enterFrame (hclock : s.scene.clock ≤ (s.enterFrame dt).scene.clock) :
    Ticketed (s.enterFrame dt) count
      (queue.filter (¬ ·.time ≤ (s.enterFrame dt).scene.clock)) where
  pending := by
    have hleft := (hs.drainDue_eq (s.enterFrame dt).scene.clock).2
    rw [show s.scene.timeline.actions = queue.map Ticket.action from h.pending.symm,
      List.filter_map] at hleft
    exact hleft.symm
  ordered := h.ordered.filter _
  below t ht := h.below t (List.mem_of_mem_filter ht)
  started := le_trans_time h.started hclock

/-- What is due in a frame stands before what is left. -/
theorem Ticketed.passed_of_due :
    ∀ t ∈ queue.filter (·.time ≤ (s.enterFrame dt).scene.clock),
      Passed (s.enterFrame dt) count
        (queue.filter (¬ ·.time ≤ (s.enterFrame dt).scene.clock)) t := by
  intro t ht
  obtain ⟨hmem, hdue⟩ := List.mem_filter.mp ht
  refine ⟨of_decide_eq_true hdue, h.below t hmem, fun q hq => ?_⟩
  obtain ⟨hq, hlate⟩ := List.mem_filter.mp hq
  exact Ticket.precedes_of_due (hs.ascending.timely _ (h.mem_pending hq))
    (of_decide_eq_true hdue) (of_decide_eq_true hlate)

end

/-- The order in which a frame applies what is due, whatever is scheduled meanwhile. -/
def FiringsOrdered (frame : Nat) (due : List ScheduledAction) (s : Stage σ) (ms : List (Moment σ))
    (last : Stage σ) : Prop :=
  ∀ (drained : List Ticket) (count : Nat) (queue : List Ticket), frame < s.frames →
    drained.map Ticket.action = due → drained.Pairwise Ticket.Precedes →
    Ticketed s count queue → (∀ t ∈ drained, Passed s count queue t) →
    ∃ fired left, fired.map (fun f => (f.1, f.2.action)) = begun ms ∧
      Ordered frame drained s count queue (scheduled ms) last fired left

/-- The order in which a course applies effects. -/
def CourseOrdered (s : Stage σ) (ms : List (Moment σ)) (last : Stage σ) : Prop :=
  ∀ (frame count : Nat) (queue : List Ticket), Ticketed s count queue →
    ∃ fired left, fired.map (fun f => (f.1, f.2.action)) = begun ms ∧
      Ordered frame [] s count queue (scheduled ms) last fired left

theorem CourseOrdered.append {s middle last : Stage σ} {ms ms' : List (Moment σ)}
    (h : CourseOrdered s ms middle) (h' : CourseOrdered middle ms' last) :
    CourseOrdered s (ms ++ ms') last := by
  intro frame count queue hticketed
  obtain ⟨fired, queue', hevents, hfirst⟩ := h frame count queue hticketed
  obtain ⟨fired', left, hevents', hrest⟩ := h' frame _ queue' hfirst.ticketed
  refine ⟨fired ++ fired', left, ?_, ?_⟩
  · rw [List.map_append, hevents, hevents', begun_append]
  · rw [scheduled_append]
    exact hfirst.append hrest List.Pairwise.nil nofun

theorem CourseOrdered.frame {s stage : Stage σ} {dt : Float} {ms : List (Moment σ)} {moved : Scene}
    {entries : List LogEntry} (hs : s.scene.Running) (hpassing : s.scene.passing dt)
    (h : FiringsOrdered s.frames (s.scene.dueWithin dt) (s.enterFrame dt) ms stage)
    (hsame : stage.scene.SameTime moved) :
    CourseOrdered s (⟨.begin s.frames s.scene.timeline.actions, (s.enterFrame dt).world⟩ ::
      (ms ++ [⟨.finish s.frames, stage.world.animated moved entries⟩]))
      (stage.withWorld (stage.world.animated moved entries)) := by
  intro frame count queue hticketed
  have hclock : s.scene.clock ≤ (s.enterFrame dt).scene.clock :=
    (hs.advances_enterFrame hpassing).clock
  obtain ⟨fired, left, hevents, hordered⟩ := h _ count _ (Nat.lt_succ_self _)
    (hticketed.map_due hs.toStanding) (hticketed.ordered.filter _)
    (hticketed.enterFrame hs.toStanding hclock) (hticketed.passed_of_due hs.toStanding)
  refine ⟨fired, left, ?_, ?_⟩
  · rw [hevents, begun_cons, begun_append]
    exact (List.append_nil _).symm
  · rw [scheduled_cons, scheduled_append]
    change Ordered frame [] s count queue (scheduled ms ++ []) _ fired left
    rw [List.append_nil]
    exact .of_firings hclock hordered hsame

theorem FiringsOrdered.more {frame : Nat} {action : ScheduledAction} {rest : List ScheduledAction}
    {s middle last : Stage σ} {ms ms' : List (Moment σ)} {outcome : Except SceneError Unit}
    (h : CourseOrdered s ms middle)
    (hrest : FiringsOrdered frame rest
      (middle.withWorld (middle.world.settle action outcome)) ms' last) :
    FiringsOrdered frame (action :: rest) s (⟨.apply frame action, s.world⟩ ::
      (ms ++ ⟨.applied frame action outcome, middle.world.settle action outcome⟩ :: ms')) last := by
  intro drained count queue hframe hdrained hdue hticketed hpassed
  obtain ⟨t, drained, rfl, rfl, hactions⟩ := List.map_eq_cons_iff.mp hdrained
  obtain ⟨-, hdue'⟩ := List.pairwise_cons.mp hdue
  obtain ⟨fired, queue', hevents, hinner⟩ := h frame count queue hticketed
  have hsettle : Ordered frame [] middle (count + (scheduled ms).length) queue' []
      (middle.withWorld (middle.world.settle t.action outcome)) [] queue' := by
    refine .still hinner.ticketed ?_ ?_ (Nat.le_refl _)
    · cases outcome <;> rfl
    · cases outcome <;> exact le_self_of_le hinner.ticketed.started
  have hfirst : Ordered frame [] s count queue (scheduled ms)
      (middle.withWorld (middle.world.settle t.action outcome)) fired queue' := by
    simpa only [List.append_nil] using hinner.append hsettle List.Pairwise.nil nofun
  have hlater : ∀ d ∈ drained, Passed (middle.withWorld (middle.world.settle t.action outcome))
      (count + (scheduled ms).length) queue' d := fun d hd =>
    (hpassed d (List.mem_cons_of_mem _ hd)).later hfirst.stamps hfirst.clock hfirst.kept
  obtain ⟨fired', left, hevents', hlast⟩ := hrest drained _ queue'
    (Nat.lt_of_lt_of_le hframe hfirst.frames) hactions hdue' hfirst.ticketed hlater
  have happly : Ordered frame [t] s count queue [] s [(frame, t)] queue :=
    .apply hticketed (hpassed t List.mem_cons_self)
  have hall := happly.append (hfirst.append hlast hdue' fun _ _ => hframe) hdue fun _ _ => hframe
  refine ⟨(frame, t) :: (fired ++ fired'), left, ?_, ?_⟩
  · rw [List.map_cons, List.map_append, hevents, hevents', begun_cons, begun_append, begun_cons]
    rfl
  · rw [scheduled_cons, scheduled_append, scheduled_cons]
    exact hall

/-- The order is kept by every course. -/
theorem ordered_closed : Course.RunningClosed (CourseOrdered (σ := σ)) FiringsOrdered where
  refl _ _ _ queue h := ⟨[], queue, rfl, .refl h⟩
  act s scheduled next hs hqueued frame count queue h := by
    obtain ⟨left, hordered⟩ := Ordered.act hs h hqueued
    rw [scheduled_cons]
    exact ⟨[], left, rfl, (List.append_nil scheduled).symm ▸ hordered⟩
  trans _ _ _ _ _ := .append
  frame _ _ _ _ _ _ := .frame
  none frame s drained _ queue _ hdrained _ h _ := by
    obtain rfl := List.map_eq_nil_iff.mp hdrained
    exact ⟨[], queue, rfl, .refl h⟩
  more _ _ _ _ _ _ _ _ _ _ _ := .more

/-! ## Players -/

/-- In a playback whose steps are not negative every effect has a ticket, and those that are applied
in one frame, or in a frame that begins later, are applied in the order of their tickets. -/
theorem Played.in_order {script : Script} {settings : Settings} {steps : List Float}
    {ms : List (Moment Session)} {last : Stage Session} (hsteps : ∀ dt ∈ steps, 0 ≤ dt)
    (h : Played script settings steps ms last) :
    ∃ (fired : List (Nat × Ticket)) (left : List Ticket),
      fired.map (fun f => (f.1, f.2.action)) = begun ms ∧
      left.map Ticket.action = last.pending ∧
      (fired.map Prod.snd ++ left).Perm (tickets 0 (scheduled ms)) ∧
      fired.Pairwise (fun a b => a.1 ≤ b.1 → a.2.Precedes b.2) ∧
      ∀ f ∈ fired, ∀ t ∈ left, f.2.Precedes t := by
  have hopening : Ticketed (Stage.opening settings) 0 [] :=
    ⟨rfl, .nil, nofun, (Stage.running_opening settings).started⟩
  obtain ⟨fired, left, hevents, hordered⟩ :=
    (h.of_closed_of_nonneg ordered_closed hsteps).1 0 0 [] hopening
  exact ⟨fired, left, hevents, hordered.ticketed.pending, hordered.same, hordered.ordered,
    fun f hf => (hordered.passed f hf).first⟩

/-- A script in which the first of two functions that are due at one time waits until a third one is
due. -/
def waitingScript : Script where
  statements :=
    let define (line : Nat) (name : String) (body : List Stmt) : Stmt :=
      .define ⟨line, 1⟩ name [] body
    let call (name : String) (arguments : List Expr) : Stmt :=
      .expr .start (.call .start (.name .start name) (arguments.map .positional))
    [define 1 "first" [call "Print" [.text .start "first"], .wait .start (.number .start 0.5)],
     define 2 "second" [call "Print" [.text .start "second"]],
     define 3 "third" [call "Print" [.text .start "third"]],
     call "Schedule" [.number .start 0.5, .name .start "first"],
     call "Schedule" [.number .start 0.5, .name .start "second"],
     call "Schedule" [.number .start 1, .name .start "third"]]
  diagnostics := []

/-- The third function is run in a frame that begins while the first one waits, and so before the
second one. -/
theorem Played.in_order_waitingScript : (∀ dt ∈ [(0.5 : Float)], 0 ≤ dt) ∧
    ∃ (ms : List (Moment Session)) (last : Stage Session),
      Played waitingScript .default [0.5] ms last ∧
      last.world.host.output.toList = ["first", "third", "second"] ∧
      ∃ (fired : List (Nat × Ticket)) (left : List Ticket),
        fired.map (fun f => (f.1, f.2.action)) = begun ms ∧
        left.map Ticket.action = last.pending ∧
        (fired.map Prod.snd ++ left).Perm (tickets 0 (scheduled ms)) ∧
        fired.Pairwise (fun a b => a.1 ≤ b.1 → a.2.Precedes b.2) ∧
        ∀ f ∈ fired, ∀ t ∈ left, f.2.Precedes t := by
  have hsteps : ∀ dt ∈ [(0.5 : Float)], 0 ≤ dt := by decide
  have houtput : (Player.play waitingScript .default [0.5]).toOption.map
      (·.world.host.output.toList) = some ["first", "third", "second"] := by decide +kernel
  cases hplay : Player.play waitingScript .default [0.5] with
  | error e =>
    rw [hplay] at houtput
    cases houtput
  | ok player =>
    rw [hplay] at houtput
    obtain ⟨ms, last, hplayed, hlast⟩ := Player.exists_played hplay
    exact ⟨hsteps, ms, last, hplayed, hlast ▸ Option.some.inj houtput,
      Played.in_order hsteps hplayed⟩

end Animatic
