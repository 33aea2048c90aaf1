import Animatic.Player
import Animatic.Proofs.Playback.Clock
import Animatic.Proofs.Playback.Tracing
import Animatic.Proofs.Session.Rules

/-!
# Courses of players

Whatever a script does has a course: recording it, the functions that its scheduled calls run, and
so each frame of its playback.

* `traceable_rules`: the steps of evaluation have courses.
* `Played`: the courses of a script that is recorded and played.
* `Player.exists_played`, `Played.run_eq`: the courses of a script are just what it does.
-/

namespace Animatic

open Number Playback

/-! ## Steps of evaluation -/

section

variable {gate : Scene → Float → Prop}

private theorem traceable_buildHost (typeName : String) (positional : List Value)
    (properties : PropertyMap) :
    Traceable gate (Session.buildHost typeName positional properties) := by
  refine traceable_host.bind fun session => ?_
  refine (traceable_log _).bind fun _ => ?_
  split
  · refine fun s => traceableAt_scene_bind ?_
    exact (traceableAt_changeScene (.insert _ _)).bind fun _ => traceable_pure _
  · exact (traceable_logOne _ _).bind fun _ => traceable_pure _
  · exact (traceable_logOne _ _).bind fun _ => traceable_pure _

private theorem traceable_commonProperties (object : ObjectRef) :
    Traceable gate (Standard.commonProperties object) := by
  rw [Standard.commonProperties]
  split
  · exact traceable_pure _
  · refine traceable_host.bind fun session s => @traceableAt_changeScene _ _ _ _ [] ?_
    split
    · rename_i hget
      exact .put (Scene.contains_of_get? hget) _
    · exact .keep _

private theorem traceable_elapse {invoke : Invoker Session}
    (h : ∀ call, Traceable gate (invoke call)) (seconds : Float)
    (hgate : ∀ scene : Scene, scene.phase = .playing → gate scene (Number.greatest seconds 0)) :
    Traceable gate (Session.elapse invoke seconds) := by
  refine fun s => traceableAt_scene_bind ?_
  split
  · refine traceableAt_scene_bind ?_
    split
    · rename_i hdelay
      exact (traceableAt_changeScene (.delay hdelay)).bind fun _ => traceable_pure _
    · exact traceable_pure _ s
  · exact traceable_advanceClock h seconds hgate s

/-- The steps of evaluation have courses. -/
theorem traceable_rules
    (hgate : ∀ (scene : Scene) (seconds : Float), scene.phase = .playing →
      gate scene (Number.greatest seconds 0)) :
    Play.Rules fun m => Traceable gate m where
  pure := traceable_pure
  bind := .bind
  look _ := traceable_scene.bind fun _ => traceable_pure _
  session := traceable_host
  log := traceable_log
  logOne := traceable_logOne
  changeSession f _ := traceable_changeHost f
  schedule := traceable_schedule
  scheduleAll := traceable_scheduleAll
  buildHost := traceable_buildHost
  commonProperties := traceable_commonProperties
  elapse h seconds := traceable_elapse h seconds fun scene => hgate scene seconds

/-- Time that passes in a script runs frames of steps that are not negative. -/
theorem Scene.passing_rules : Play.Rules fun m => Traceable Scene.passing m :=
  traceable_rules fun _ seconds hphase => ⟨hphase, nonneg_greatest seconds⟩

end

/-! ## Players -/

/-- A player that has recorded a script and played some steps. -/
def Player.play (script : Script) (settings : Settings) (steps : List Float) :
    Except Fault Player := do
  let ((), world) ← (record script).run (.initial settings.bounds (.ofSettings settings))
  steps.foldlM update ⟨script, world⟩

/-- The stage in which a script is recorded. -/
def Stage.opening (settings : Settings) : Stage Session :=
  ⟨.initial settings.bounds (.ofSettings settings), 0⟩

/-- What happens while a script is recorded and played with some steps. -/
inductive Played (script : Script) (settings : Settings) :
    List Float → List (Moment Session) → Stage Session → Prop where
  | record {ms : List (Moment Session)} {last : Stage Session}
      (h : Course Scene.passing (Player.record script) (.opening settings) ms () last) :
      Played script settings [] ms last
  | update {steps : List Float} {dt : Float} {ms ms' : List (Moment Session)}
      {middle last : Stage Session} (hplayed : Played script settings steps ms middle)
      (h : Frame Scene.passing (Session.outermost Standard.commands).invoke dt middle ms' last) :
      Played script settings (steps ++ [dt]) (ms ++ ms') last

section

variable {script : Script} {settings : Settings} {steps : List Float}

/-- Loading a text is recording the script in it. -/
theorem Player.load_bind_foldlM (source : String) :
    (load source settings >>= fun player => steps.foldlM update player) =
      play (Script.parse source) settings steps := by
  rw [load, play, bind_assoc]
  rfl

theorem traceable_record (script : Script) : Traceable Scene.passing (Player.record script) := by
  refine (traceable_log _).bind fun _ => ?_
  refine (Scene.passing_rules.run Scene.passing_rules.standard script.statements).bind fun _ => ?_
  refine traceable_finishRecording.bind fun _ => ?_
  exact traceable_host.bind fun _ => traceable_logOne _ _

/-- A frame that a player advances by has a course. -/
theorem exists_frame_of_update {s : Stage Session} {dt : Float} {next : World Session}
    (hrun : (Session.update Standard.commands dt).run s.world = .ok ((), next)) :
    ∃ ms last, Frame Scene.passing (Session.outermost Standard.commands).invoke dt s ms last ∧
      last.world = next :=
  exists_frame (Scene.passing_rules.outermost Scene.passing_rules.standard).invoke hrun

theorem Player.play_concat (dt : Float) :
    play script settings (steps ++ [dt]) =
      (play script settings steps >>= fun player => player.update dt) := by
  simp only [play, bind_assoc, List.foldlM_append, List.foldlM_cons, List.foldlM_nil, bind_pure]

/-- What a player does has a course. -/
theorem Player.exists_played {player : Player} (h : play script settings steps = .ok player) :
    ∃ ms last, Played script settings steps ms last ∧ last.world = player.world := by
  induction steps using List.reverseRecOn generalizing player with
  | nil =>
    obtain ⟨⟨⟨⟩, world⟩, hrecord, hplayer⟩ := of_bind_eq_ok h
    obtain rfl := Except.ok.inj hplayer
    obtain ⟨ms, last, hcourse, hlast⟩ := traceable_record _ (.opening settings) () world hrecord
    exact ⟨ms, last, .record hcourse, hlast⟩
  | append_singleton steps dt ih =>
    rw [play_concat] at h
    obtain ⟨before, hplay, hupdate⟩ := of_bind_eq_ok h
    obtain ⟨⟨⟨⟩, world⟩, hrun, hplayer⟩ := of_bind_eq_ok hupdate
    obtain rfl := Except.ok.inj hplayer
    obtain ⟨ms, middle, hplayed, hmiddle⟩ := ih hplay
    rw [← hmiddle] at hrun
    obtain ⟨ms', last, hframe, hlast⟩ := exists_frame_of_update hrun
    exact ⟨ms ++ ms', last, .update hplayed hframe, hlast⟩

/-- A player does what its courses say. -/
theorem Played.run_eq {ms : List (Moment Session)} {last : Stage Session}
    (h : Played script settings steps ms last) :
    Player.play script settings steps = .ok ⟨script, last.world⟩ := by
  induction h with
  | @record _ last hcourse =>
    have hrecord : (Player.record script).run (.initial settings.bounds (.ofSettings settings)) =
        .ok ((), last.world) := hcourse.run_eq
    rw [Player.play, hrecord]
    rfl
  | @update _ dt _ _ middle last _ hframe ih =>
    have hrun : (Session.update Standard.commands dt).run middle.world = .ok ((), last.world) :=
      hframe.run_eq
    rw [Player.play_concat, ih]
    change Player.update ⟨_, middle.world⟩ dt = _
    rw [Player.update, hrun]
    rfl

/-! ## Players with time that passes -/

/-- Functions can run while a script is recorded. -/
theorem Stage.running_opening (settings : Settings) : (opening settings).scene.Running where
  ascending := ⟨nofun, .nil⟩
  stamps := nofun
  offset := elapsed_zero
  clock := elapsed_zero.timely.notNegativeZero
  started := elapsed_zero.nonneg
  behind := elapsed_zero.nonneg

theorem phase_of_record {script : Script} {world next : World Session}
    (h : (Player.record script).run world = .ok ((), next)) : next.scene.phase = .playing := by
  obtain ⟨_, logged, -, h⟩ := Action.bind_eq_ok h
  obtain ⟨_, recorded, -, h⟩ := Action.bind_eq_ok h
  obtain ⟨_, finished, hfinish, h⟩ := Action.bind_eq_ok h
  obtain ⟨-, rfl⟩ := Prod.mk.inj (Except.ok.inj h)
  obtain ⟨-, rfl⟩ := Prod.mk.inj (Except.ok.inj hfinish)
  change recorded.scene.finishRecording.1.phase = .playing
  rw [Scene.finishRecording]
  split
  · assumption
  · rfl

variable {P : Stage Session → List (Moment Session) → Stage Session → Prop}
  {Q : Nat → List ScheduledAction → Stage Session → List (Moment Session) → Stage Session → Prop}
  {ms : List (Moment Session)} {last : Stage Session}

/-- Steps of any size: what every course where functions run has, and every frame between them, a
whole playback has. -/
theorem Played.of_closed (hclosed : Course.RunningClosed P Q)
    (hframe : ∀ s fired dt ms moved entries, s.scene.Standing →
      Q s.frames (s.scene.dueWithin dt) (s.enterFrame dt) ms fired → fired.scene.SameTime moved →
      P s (⟨.begin s.frames s.scene.timeline.actions, (s.enterFrame dt).world⟩ ::
        (ms ++ [⟨.finish s.frames, fired.world.animated moved entries⟩]))
        (fired.withWorld (fired.world.animated moved entries)))
    (h : Played script settings steps ms last) :
    P (.opening settings) ms last ∧ last.scene.Standing ∧ last.scene.phase = .playing := by
  induction h with
  | record hcourse =>
    obtain ⟨hadvances, hp⟩ := hclosed.closed.course hcourse (Stage.running_opening settings)
    exact ⟨hp, hadvances.running.toStanding, phase_of_record hcourse.run_eq⟩
  | update _ h ih =>
    obtain ⟨hp, hstanding, hphase⟩ := ih
    obtain ⟨hstanding', hphase', inner, fired, moved, entries, rfl, rfl, hq, hsame⟩ :=
      hclosed.of_standing h hstanding hphase
    exact ⟨hclosed.trans _ _ _ _ _ hp (hframe _ _ _ _ _ _ hstanding hq hsame), hstanding', hphase'⟩

/-- Steps that are not negative: what every course where functions run has, a whole playback has. -/
theorem Played.of_closed_of_nonneg (hclosed : Course.RunningClosed P Q)
    (hsteps : ∀ dt ∈ steps, 0 ≤ dt) (h : Played script settings steps ms last) :
    P (.opening settings) ms last ∧ last.scene.Running ∧ last.scene.phase = .playing := by
  induction h with
  | record hcourse =>
    obtain ⟨hadvances, hp⟩ := hclosed.closed.course hcourse (Stage.running_opening settings)
    exact ⟨hp, hadvances.running, phase_of_record hcourse.run_eq⟩
  | @update steps dt _ _ _ _ _ h ih =>
    obtain ⟨hp, hrunning, hphase⟩ := ih fun dt hmem => hsteps dt (List.mem_append_left _ hmem)
    have hdt : 0 ≤ dt := hsteps dt (List.mem_append_right _ (List.mem_singleton_self dt))
    obtain ⟨hadvances, hp'⟩ := hclosed.closed.course (.frame ⟨hphase, hdt⟩ h) hrunning
    exact ⟨hclosed.trans _ _ _ _ _ hp hp', hadvances.running, hadvances.phase hphase⟩

end

end Animatic
