import Animatic.CommandLine.Report
import Animatic.Proofs.Playback.Checks
import Animatic.Proofs.Playback.Drawing
import Animatic.Proofs.Playback.Failures
import Animatic.Proofs.Session.Printing

/-!
# Frames

Showing a script prints what it printed when it was recorded, and then, frame by frame, what it
prints in the frame and a summary on the frames that have one. Drawing for a summary logs, which
makes no difference to later frames.

* `Player.SameButLog`: players that differ in the log alone; `SameButLog.update`.
* `summaryLine`: what a summary tells; `Showing.summary_drawCalls`: it does.
* `Showing.Before`: what holds in front of every frame; `Showing.Before.next`: a frame.
* `ShownFrom`: what some frames print; `Showing.Before.run`: a run of frames.
* `Showing.Reached`: what stands between the frames.
* `Opening.report_shows`: the whole output of the program.
-/

namespace Animatic

open Playback

/-! ## Players -/

namespace Player

/-- Two players that differ in nothing but what has been logged. -/
structure SameButLog (player other : Player) : Prop where
  script : other.script = player.script
  scene : other.world.scene = player.world.scene
  host : other.world.host = player.world.host

variable {player other : Player} {frameTime : Float}

theorem SameButLog.refl (player : Player) : player.SameButLog player := ⟨rfl, rfl, rfl⟩

theorem SameButLog.output (h : player.SameButLog other) : other.output = player.output := by
  rw [Player.output, h.host, Player.output]

/-- What has been logged makes no difference to a step. -/
theorem SameButLog.update (h : player.SameButLog other) (dt : Float) :
    (∃ fault, player.update dt = .error fault ∧ other.update dt = .error fault) ∨
      ∃ next next', player.update dt = .ok next ∧ other.update dt = .ok next' ∧
        next.SameButLog next' := by
  -- the two worlds count the same failures: the other one is ahead by none
  have hahead : player.world.Ahead 0 other.world := ⟨by rw [h.scene]; rfl, h.host⟩
  have hinvoke := (indifferent_rules.outermost indifferent_rules.standard).invoke
  have halike : EndAlike 0 ((Session.update Standard.commands dt).run player.world)
      ((Session.update Standard.commands dt).run other.world) :=
    indifferent_update hinvoke dt 0 player.world other.world hahead
  unfold Player.update
  generalize (Session.update Standard.commands dt).run player.world = first at halike ⊢
  generalize (Session.update Standard.commands dt).run other.world = second at halike ⊢
  cases halike with
  | fault fault => exact .inl ⟨fault, rfl, rfl⟩
  | ok a hnext => exact .inr ⟨_, _, rfl, rfl, h.script, hnext.scene, hnext.host⟩

/-- The player after a number of steps of one length. -/
def atFrame (frameTime : Float) (player : Player) : Nat → Except Fault Player
  | 0 => .ok player
  | frame + 1 => player.atFrame frameTime frame >>= (·.update frameTime)

/-- Between bounds that are not negative a player comes to every frame. -/
theorem exists_atFrame (h : player.world.scene.bounds.Nonnegative) (frame : Nat) :
    ∃ next, player.atFrame frameTime frame = .ok next ∧
      next.world.scene.bounds = player.world.scene.bounds := by
  induction frame with
  | zero => exact ⟨player, rfl, rfl⟩
  | succ frame ih =>
    obtain ⟨middle, hmiddle, hbounds⟩ := ih
    obtain ⟨next, hupdate, hnext⟩ := exists_update (hbounds.symm ▸ h) frameTime
    refine ⟨next, ?_, hnext.trans hbounds⟩
    rw [atFrame, hmiddle]
    exact hupdate

end Player

namespace CommandLine

variable {plan : Plan} {player last : Player} {showing : Showing}

/-! ## What a frame prints -/

/-- The frames that have a summary: the multiples of a number, which is one if none is given, and
the last one. -/
def Plan.Reports (plan : Plan) (frame : Nat) : Prop :=
  max plan.every.toNat 1 ∣ frame ∨ frame = plan.last

instance (plan : Plan) (frame : Nat) : Decidable (plan.Reports frame) :=
  inferInstanceAs (Decidable (_ ∨ _))

theorem isReported_iff {frame : Nat} :
    isReported plan.every plan.last frame = true ↔ plan.Reports frame := by
  simp [isReported, Plan.Reports, Nat.dvd_iff_mod_eq_zero]

example : (List.range 8).filter (isReported 3 7) = [0, 3, 6, 7] := by decide

/-- The line that tells the time of a scene, how many primitives are visible, how many points are
shown of them, and how many actions are pending. -/
def summaryLine (scene : Scene) : String :=
  "t=" ++ Number.padLeft 7 (Number.fixed 3 (Number.exact scene.now))
    ++ "s  shapes=" ++ Number.padLeft 3 (Number.natText scene.visible.length)
    ++ "  vertices=" ++ Number.padLeft 5
      (Number.natText (scene.visible.flatMap Primitive.visibleLoops).flatten.length)
    ++ "  pending=" ++ Number.natText scene.timeline.actions.length

/-- The summary of a drawn scene counts one shape for each primitive of which something is visible,
and the points that are shown of these. -/
theorem Showing.summary_drawCalls (scene : Scene) :
    Showing.summary scene scene.drawCalls = summaryLine scene := by
  have hshapes : scene.drawCalls.length = scene.visible.length := scene.drawCalls_show.length_eq
  rw [summary, summaryLine, vertexCount_eq_length, Scene.drawnPoints_drawCalls, hshapes]
  rfl

/-- The summary of a player on a frame, if the frame has one. -/
def Plan.summary? (plan : Plan) (frame : Nat) (player : Player) : Option String :=
  if plan.Reports frame then some (summaryLine player.world.scene) else none

/-- What is printed in a frame: first by the script, and then of the scene. -/
structure FrameLines where
  script : List String
  summary : Option String

/-- The lines of a frame. -/
def FrameLines.all (lines : FrameLines) : List String := lines.script ++ lines.summary.toList

/-- What is printed by the script in some frames. -/
def scriptLines (frames : List FrameLines) : List String := frames.flatMap FrameLines.script

/-- What is printed in some frames. -/
def allLines (frames : List FrameLines) : List String := frames.flatMap FrameLines.all

/-- What is printed in the frames from the `first` one on. Each is made by one step more than the
one before it, the script has printed `printed` before them, and what it prints in a frame is
printed there. -/
def ShownFrom (plan : Plan) (player : Player) (first : Nat) (printed : List String)
    (frames : List FrameLines) : Prop :=
  ∀ (k : Nat) (_ : k < frames.length), ∃ next,
    player.atFrame plan.frameTime (first + k) = .ok next ∧
    next.output = printed ++ scriptLines (frames.take (k + 1)) ∧
    frames[k].summary = plan.summary? (first + k) next

theorem ShownFrom.nil (first : Nat) (printed : List String) :
    ShownFrom plan player first printed [] := nofun

theorem ShownFrom.cons {first : Nat} {printed : List String} {lines : FrameLines}
    {frames : List FrameLines} {next : Player}
    (hreached : player.atFrame plan.frameTime first = .ok next)
    (houtput : next.output = printed ++ lines.script)
    (hsummary : lines.summary = plan.summary? first next)
    (hrest : ShownFrom plan player (first + 1) next.output frames) :
    ShownFrom plan player first printed (lines :: frames) := by
  rintro (_ | k) hk
  · exact ⟨next, hreached, by simpa [scriptLines] using houtput, hsummary⟩
  · obtain ⟨later, hlater, hprinted, hreport⟩ := hrest k (by simpa using hk)
    have hplace : first + (k + 1) = first + 1 + k := by omega
    rw [hplace]
    refine ⟨later, hlater, ?_, hreport⟩
    simp [hprinted, houtput, scriptLines]

/-! ## Single frames -/

namespace Showing

/-- In front of a frame all that the script has printed has been shown, and the player is, but for
the log, the one of the frame before. -/
structure Before (plan : Plan) (player : Player) (showing : Showing) (last : Player) : Prop where
  same : last.SameButLog showing.player
  reached : player.atFrame plan.frameTime (showing.frame - 1) = .ok last
  shown : showing.shown = showing.output.size

theorem before_ofPlayer (plan : Plan) (player : Player) :
    Before plan player (.ofPlayer player) player := ⟨.refl player, rfl, rfl⟩

theorem toList_output (showing : Showing) : showing.output.toList = showing.player.output := rfl

/-- A frame begins with a step, but for the first one. -/
theorem Before.advance (h : Before plan player showing last) :
    (∃ fault, showing.advance plan = .error fault ∧
      player.atFrame plan.frameTime showing.frame = .error fault) ∨
    ∃ middle next, showing.advance plan = .ok middle ∧
      player.atFrame plan.frameTime showing.frame = .ok next ∧
      next.SameButLog middle.player ∧ last.output <+: next.output ∧
      middle.frame = showing.frame ∧ middle.shown = showing.shown := by
  have hreached := h.reached
  unfold Showing.advance
  by_cases hfirst : showing.frame = 0
  · rw [if_pos hfirst]
    rw [hfirst] at hreached ⊢
    exact .inr ⟨showing, last, rfl, hreached, h.same, List.prefix_rfl, hfirst, rfl⟩
  rw [if_neg hfirst]
  -- the player of the frame before has one step less behind it
  have hstep : player.atFrame plan.frameTime showing.frame = last.update plan.frameTime := by
    obtain ⟨frame, hframe⟩ := Nat.exists_eq_succ_of_ne_zero hfirst
    rw [hframe, Nat.succ_sub_one] at hreached
    rw [hframe, Player.atFrame, hreached]
    rfl
  rw [hstep]
  rcases h.same.update plan.frameTime with ⟨fault, hlast, hshowing⟩ |
    ⟨next, next', hlast, hshowing, hsame⟩
  · rw [hshowing]
    exact .inl ⟨fault, rfl, hlast⟩
  · rw [hshowing]
    exact .inr ⟨{ showing with player := next' }, next, rfl, hlast, hsame,
      Player.output_update hlast, rfl, rfl⟩

/-- What has not been shown is what has been printed since. -/
theorem newLines_eq {printed added : List String}
    (houtput : showing.player.output = printed ++ added)
    (hshown : showing.shown = printed.length) :
    showing.shown ≤ showing.output.size ∧ showing.newLines = added := by
  have hlist : showing.output.toList = printed ++ added := houtput
  have hsize : showing.output.size = printed.length + added.length := by
    rw [← Array.length_toList, hlist, List.length_append]
  refine ⟨by omega, ?_⟩
  simp [newLines, hlist, hshown, hsize]

/-- A summary is what the scene and its drawing tell, and leaves all but the log as it is. -/
theorem report_eq (plan : Plan) (showing : Showing) : ∃ later,
    showing.report plan =
      .ok ((plan.summary? showing.frame showing.player).toList, later) ∧
    showing.player.SameButLog later.player ∧ later.frame = showing.frame ∧
    later.shown = showing.shown := by
  unfold report Plan.summary?
  by_cases hreports : plan.Reports showing.frame
  · rw [if_pos (isReported_iff.mpr hreports), if_pos hreports, ← summary_drawCalls]
    exact ⟨_, rfl, ⟨rfl, rfl, rfl⟩, rfl, rfl⟩
  · rw [if_neg (isReported_iff.not.mpr hreports), if_neg hreports]
    exact ⟨showing, rfl, .refl _, rfl, rfl⟩

theorem summary?_congr {other : Player} (h : player.SameButLog other) (frame : Nat) :
    plan.summary? frame other = plan.summary? frame player := by
  rw [Plan.summary?, h.scene, Plan.summary?]

/-- A frame prints what the script has printed in it and its summary, and leads to the next one. -/
theorem Before.next (h : Before plan player showing last) :
    (∃ fault, showing.next plan = .error fault ∧
      player.atFrame plan.frameTime showing.frame = .error fault) ∨
    ∃ (lines : FrameLines) (later : Showing) (next : Player),
      showing.next plan = .ok (lines.all, later) ∧
      player.atFrame plan.frameTime showing.frame = .ok next ∧
      next.output = last.output ++ lines.script ∧
      lines.summary = plan.summary? showing.frame next ∧
      later.frame = showing.frame + 1 ∧ Before plan player later next := by
  unfold Showing.next
  rcases h.advance with ⟨fault, hadvance, hreached⟩ |
    ⟨middle, next, hadvance, hreached, hsame, ⟨added, hadded⟩, hframe, hshown⟩
  · rw [hadvance]
    exact .inl ⟨fault, rfl, hreached⟩
  right
  have houtput : middle.player.output = last.output ++ added := hsame.output.trans hadded.symm
  -- what has been shown is what the script had printed in front of the frame
  have hcount : middle.shown = last.output.length := by
    rw [hshown, h.shown, ← Array.length_toList, toList_output, h.same.output]
  obtain ⟨-, hnew⟩ := newLines_eq houtput hcount
  obtain ⟨later, hreport, hlater, hlaterFrame, hlaterShown⟩ := report_eq plan middle.showAll
  have hsummary : plan.summary? middle.showAll.frame middle.showAll.player =
      plan.summary? showing.frame next := by
    have hkept : middle.showAll.frame = showing.frame := hframe
    rw [hkept]
    exact summary?_congr hsame showing.frame
  have hnextFrame : later.frame + 1 = showing.frame + 1 := by
    rw [hlaterFrame]
    exact congrArg (· + 1) hframe
  rw [hadvance]
  change ∃ (lines : FrameLines) (later : Showing) (next : Player),
    (middle.showAll.report plan >>= _) = _ ∧ _
  rw [hreport, hsummary]
  refine ⟨⟨added, plan.summary? showing.frame next⟩, { later with frame := later.frame + 1 }, next,
    ?_, hreached, hadded.symm, rfl, hnextFrame, ?_, ?_, ?_⟩
  · rw [← hnew]
    rfl
  · exact ⟨hlater.script.trans hsame.script, hlater.scene.trans hsame.scene,
      hlater.host.trans hsame.host⟩
  · rw [hnextFrame, Nat.add_sub_cancel]
    exact hreached
  · have hsize : later.output.size = middle.output.size :=
      congrArg (fun session : Session => session.output.size) hlater.host
    exact hlaterShown.trans hsize.symm

/-! ## Runs -/

/-- A run of frames prints what each of them prints. It ends early only where a step of the player
fails. -/
theorem Before.run (h : Before plan player showing last) (count : Nat) (printed : Array String) :
    ∃ frames, (showing.run plan count printed).1 = printed ++ (allLines frames).toArray ∧
      ShownFrom plan player showing.frame last.output frames ∧
      ((showing.run plan count printed).2 = true ∧ frames.length = count ∨
        (showing.run plan count printed).2 = false ∧ frames.length < count ∧
          ∃ fault, player.atFrame plan.frameTime (showing.frame + frames.length) =
            .error fault) := by
  induction count generalizing showing last printed with
  | zero => exact ⟨[], by simp [Showing.run, allLines], .nil _ _, .inl ⟨rfl, rfl⟩⟩
  | succ count ih =>
    rcases h.next with ⟨fault, hnext, hfault⟩ |
      ⟨lines, later, next, hnext, hreached, houtput, hsummary, hframe, hbefore⟩
    · refine ⟨[], by simp [Showing.run, hnext, allLines], .nil _ _, .inr ⟨?_, Nat.succ_pos count,
        fault, hfault⟩⟩
      simp [Showing.run, hnext]
    · obtain ⟨frames, hlines, hshown, hend⟩ := ih hbefore (printed ++ lines.all.toArray)
      have hrun : showing.run plan (count + 1) printed =
          later.run plan count (printed ++ lines.all.toArray) := by simp [Showing.run, hnext]
      rw [hframe] at hshown hend
      refine ⟨lines :: frames, ?_, .cons hreached houtput hsummary hshown, ?_⟩
      · simp [hrun, hlines, allLines]
      · rw [hrun, List.length_cons]
        have hplace : showing.frame + (frames.length + 1) = showing.frame + 1 + frames.length := by
          omega
        rw [hplace]
        exact hend.imp (fun h => ⟨h.1, congrArg (· + 1) h.2⟩)
          fun h => ⟨h.1, Nat.succ_lt_succ h.2.1, h.2.2⟩

/-- The showings that stand between the frames when a player is shown. -/
inductive Reached (plan : Plan) (player : Player) : Showing → Prop
  | start : Reached plan player (.ofPlayer player)
  | next {showing later : Showing} {lines : List String} (h : Reached plan player showing)
      (hnext : showing.next plan = .ok (lines, later)) : Reached plan player later

/-- Whatever happens in the frames, the next one finds things in order. -/
theorem Reached.before (h : Reached plan player showing) :
    ∃ last, Before plan player showing last := by
  induction h with
  | start => exact ⟨player, before_ofPlayer plan player⟩
  | next _ hnext ih =>
    obtain ⟨last, hlast⟩ := ih
    rcases hlast.next with ⟨fault, hfault, -⟩ | ⟨_, _, next, hdone, -, -, -, -, hbefore⟩
    · cases hfault.symm.trans hnext
    · cases hdone.symm.trans hnext
      exact ⟨next, hbefore⟩

/-- When a frame has made its step, the player has made one step for each frame behind the first,
and as many lines have been printed as have been shown, or more. -/
theorem Reached.advance {middle : Showing} (h : Reached plan player showing)
    (hadvance : showing.advance plan = .ok middle) :
    middle.shown ≤ middle.output.size ∧
      ∃ next, player.atFrame plan.frameTime showing.frame = .ok next ∧
        next.SameButLog middle.player := by
  obtain ⟨last, hlast⟩ := h.before
  rcases hlast.advance with ⟨fault, hfault, -⟩ |
    ⟨_, next, hdone, hreached, hsame, ⟨added, hadded⟩, -, hshown⟩
  · cases hfault.symm.trans hadvance
  cases hdone.symm.trans hadvance
  have hcount : middle.shown = last.output.length := by
    rw [hshown, hlast.shown, ← Array.length_toList, toList_output, hlast.same.output]
  exact ⟨(newLines_eq (hsame.output.trans hadded.symm) hcount).1, next, hreached, hsame⟩

end Showing

/-- Playing a script prints what the script has printed when it was recorded, and then the lines of
frames. The frame with the number `k` is made by `k` steps, prints first what the script prints in
the last of these, so that each line of the script stands there once and in order, and then its
summary, if it has one. No frame shows lines from beyond those that have been printed. All planned
frames are shown unless a step fails, which none does between bounds that are not negative. -/
theorem Opening.report_shows (opening : Opening) :
    (∃ frames, opening.report.output = opening.player.output ++ allLines frames ∧
      ShownFrom opening.plan opening.player 0 opening.player.output frames ∧
      (opening.report.code = 0 ∧ frames.length = opening.plan.last + 1 ∨
        opening.report.code = faultCode ∧ frames.length ≤ opening.plan.last ∧
          ∃ fault, opening.player.atFrame opening.plan.frameTime frames.length =
            .error fault)) ∧
    (∀ showing middle, Showing.Reached opening.plan opening.player showing →
      showing.advance opening.plan = .ok middle →
      middle.shown ≤ middle.output.size ∧
        ∃ next, opening.player.atFrame opening.plan.frameTime showing.frame = .ok next ∧
          next.SameButLog middle.player) ∧
    (opening.player.world.scene.bounds.Nonnegative → opening.report.code = 0) := by
  obtain ⟨frames, hlines, hshown, hend⟩ :=
    (Showing.before_ofPlayer opening.plan opening.player).run (opening.plan.last + 1)
      (Showing.ofPlayer opening.player).output
  have houtput : opening.report.output = opening.player.output ++ allLines frames := by
    refine (congrArg Array.toList hlines).trans ?_
    simp [Player.output, Showing.output, Showing.ofPlayer]
  have hcode : opening.report.code = if ((Showing.ofPlayer opening.player).run opening.plan
      (opening.plan.last + 1) (Showing.ofPlayer opening.player).output).2 then 0 else faultCode :=
    rfl
  have hoften : opening.report.code = 0 ∧ frames.length = opening.plan.last + 1 ∨
      opening.report.code = faultCode ∧ frames.length ≤ opening.plan.last ∧
        ∃ fault, opening.player.atFrame opening.plan.frameTime frames.length = .error fault := by
    rcases hend with ⟨hdone, hlength⟩ | ⟨hfailed, hlength, hfault⟩
    · exact .inl ⟨by rw [hcode, if_pos hdone], hlength⟩
    · refine .inr ⟨by rw [hcode, hfailed]; rfl, Nat.le_of_lt_succ hlength, ?_⟩
      rwa [show (Showing.ofPlayer opening.player).frame + frames.length = frames.length from
        Nat.zero_add _] at hfault
  refine ⟨⟨frames, houtput, hshown, hoften⟩, fun _ _ hreached => hreached.advance,
    fun hbounds => ?_⟩
  rcases hoften with ⟨hzero, -⟩ | ⟨-, -, fault, hfault⟩
  · exact hzero
  · obtain ⟨next, hnext, -⟩ := Player.exists_atFrame hbounds frames.length
    cases hnext.symm.trans hfault

end CommandLine

end Animatic
