import Animatic.Proofs.Geometry.Indices
import Animatic.Proofs.Number.Single
import Animatic.Proofs.Playback.Evaluation
import Animatic.Proofs.Script.Places

/-!
# Checks

What a player does can go wrong in few places: where a position is brought back between bounds, where
the points of two outlines are paired, where a random number is drawn, and where points, characters
and tokens are looked up by their place. If the bounds are not negative it goes wrong nowhere.

* `Completes`: computations that end, and leave the bounds as they are; `completes_rules`: the steps
  of evaluation.
* `Standard.randomOr`: random numbers, with an alarm where a draw cannot be made.
* `Player.Faultless`: nothing goes wrong; `Player.faultless_of_nonneg`: when that is so.
-/

namespace Animatic

open Number Playback Script
open Float.Model (UnpackedFloat)
open Float.Model.UnpackedFloat

/-! ## Bounces -/

/-- Bounds that are not negative. -/
structure Bounds.Nonnegative (bounds : Bounds) : Prop where
  x : 0 ≤ bounds.x
  y : 0 ≤ bounds.y

namespace Primitive

private theorem exists_bounce {bound : Float32} (h : 0 ≤ bound) (position velocity : Float32) :
    ∃ result, bounce bound position velocity = .ok result := by
  rw [bounce, if_pos (neg_le_self h)]
  split <;> exact ⟨_, rfl⟩

example : bounce (-1) 0 1 = .error .invertedBounds := rfl

/-- A primitive can always move. -/
theorem exists_advance {bounds : Bounds} (h : bounds.Nonnegative) (p : Primitive) (dt : Float) :
    ∃ result, p.advance dt bounds = .ok result := by
  have hmove (step : Float32) : ∃ moved, p.move step bounds = .ok moved := by
    rw [move]
    split
    · exact ⟨p, rfl⟩
    · obtain ⟨_, hx⟩ := exists_bounce h.x (p.transform.x + p.velocityX * step) p.velocityX
      obtain ⟨_, hy⟩ := exists_bounce h.y (p.transform.y + p.velocityY * step) p.velocityY
      rw [hx, hy]
      exact ⟨_, rfl⟩
  obtain ⟨moved, hmoved⟩ := hmove (narrow dt)
  rw [advance, hmoved]
  exact ⟨_, rfl⟩

end Primitive

namespace Scene

variable {scene next : Scene}

private theorem bounds_swap (scene : Scene) (source target : PrimitiveId) :
    (scene.swap source target).1.bounds = scene.bounds := by
  rw [swap]
  split
  · rfl
  · dsimp only
    split <;> rfl

theorem bounds_animate {dt : Float} {entries : List LogEntry}
    (h : scene.animate dt = .ok (next, entries)) : next.bounds = scene.bounds :=
  relates_animate (R := fun scene next => next.bounds = scene.bounds) (fun _ => rfl)
    (fun _ _ _ h h' => h'.trans h) (fun _ _ _ _ => rfl) bounds_swap h

private theorem bounds_enact {change : Change} {entries : List LogEntry}
    (h : scene.enact change = .ok (next, entries)) : next.bounds = scene.bounds := by
  cases changed_enact h <;> rfl

private theorem bounds_finishRecording (scene : Scene) :
    scene.finishRecording.1.bounds = scene.bounds := by
  rw [finishRecording]
  split <;> rfl

private theorem exists_advanceAll (h : scene.bounds.Nonnegative) (dt : Float)
    (ids : List PrimitiveId) : ∃ result, advanceAll dt ids scene = .ok result := by
  induction ids generalizing scene with
  | nil => exact ⟨_, rfl⟩
  | cons id rest ih =>
    rw [advanceAll]
    split
    · exact ih h
    · rename_i p _
      obtain ⟨⟨moved, commit⟩, hmoved⟩ := p.exists_advance h dt
      have hput : (scene.put id moved).bounds.Nonnegative := h
      obtain ⟨result, hrest⟩ := ih hput
      rw [hmoved]
      change ∃ result, (advanceAll dt rest (scene.put id moved) >>= _) = .ok result
      rw [hrest]
      exact ⟨_, rfl⟩

theorem exists_animate (h : scene.bounds.Nonnegative) (dt : Float) :
    ∃ next entries, scene.animate dt = .ok (next, entries) ∧ next.bounds = scene.bounds := by
  obtain ⟨moved, hmoved⟩ := exists_advanceAll h dt scene.display
  have hanimate : scene.animate dt = .ok (swapAll moved.2 moved.1) := by
    rw [animate, hmoved]
    rfl
  exact ⟨_, _, hanimate, bounds_animate hanimate⟩

end Scene

/-! ## Computations that end -/

section

variable {σ α β : Type} {world : World σ}

/-- If the bounds of a world's scene are not negative, a computation ends there, and leaves them as
they are. -/
def CompletesAt (world : World σ) (m : Action σ α) : Prop :=
  world.scene.bounds.Nonnegative →
    ∃ a next, m.run world = .ok (a, next) ∧ next.scene.bounds = world.scene.bounds

/-- A computation that ends wherever the bounds are not negative. -/
def Completes (m : Action σ α) : Prop := ∀ world, CompletesAt world m

theorem completes_pure (a : α) : Completes (pure a : Action σ α) := fun world _ =>
  ⟨a, world, rfl, rfl⟩

theorem CompletesAt.bind {m : Action σ α} {f : α → Action σ β} (hm : CompletesAt world m)
    (hf : ∀ a, Completes (f a)) : CompletesAt world (m >>= f) := by
  intro hbounds
  obtain ⟨a, middle, hrun, hmiddle⟩ := hm hbounds
  obtain ⟨b, next, hrun', hnext⟩ := hf a middle (hmiddle ▸ hbounds)
  exact ⟨b, next, (Action.bind_of_ok hrun).trans hrun', hnext.trans hmiddle⟩

theorem Completes.bind {m : Action σ α} {f : α → Action σ β} (hm : Completes m)
    (hf : ∀ a, Completes (f a)) : Completes (m >>= f) := fun world => (hm world).bind hf

theorem completesAt_changeScene {f : Scene → Scene}
    (h : (f world.scene).bounds = world.scene.bounds) :
    CompletesAt world (changeScene f : Action σ Unit) := fun _ => ⟨(), _, rfl, h⟩

theorem completes_changeHost (f : σ → σ) : Completes (changeHost f : Action σ Unit) :=
  fun _ _ => ⟨(), _, rfl, rfl⟩

theorem completes_log (entries : List LogEntry) : Completes (log entries : Action σ Unit) :=
  fun _ _ => ⟨(), _, rfl, rfl⟩

theorem completes_logOne (level : LogLevel) (message : String) :
    Completes (logOne level message : Action σ Unit) := fun _ _ => ⟨(), _, rfl, rfl⟩

theorem completes_host : Completes (host : Action σ σ) := fun world _ => ⟨_, world, rfl, rfl⟩

/-- What follows a look at the scene may rely on it. -/
theorem completesAt_scene_bind {f : Scene → Action σ β} (h : CompletesAt world (f world.scene)) :
    CompletesAt world (scene >>= f) := h

theorem completes_finishRecording : Completes (finishRecording : Action σ Unit) := fun _ =>
  completesAt_scene_bind <|
    (completesAt_changeScene (Scene.bounds_finishRecording _)).bind fun _ => completes_log _

/-! ## Frames -/

theorem completes_enact (change : Change) :
    Completes (enact change : Action σ (Except SceneError Unit)) := by
  refine fun world => completesAt_scene_bind ?_
  split
  · exact completes_pure _ world
  · rename_i next entries henact
    exact (completesAt_changeScene (Scene.bounds_enact henact)).bind fun _ =>
      (completes_log _).bind fun _ => completes_pure _

theorem completes_animate (dt : Float) : Completes (animate dt : Action σ Unit) := by
  intro world hbounds
  obtain ⟨next, entries, hanimate, hnext⟩ := Scene.exists_animate hbounds dt
  exact ⟨(), _, run_animate hanimate, hnext⟩

variable {invoke : Invoker σ} (hinvoke : ∀ call, Completes (invoke call))

include hinvoke

theorem completes_fireAll (due : List ScheduledAction) : Completes (fireAll invoke due) := by
  induction due with
  | nil => exact completes_pure ()
  | cons action rest ih =>
    have happly : Completes (apply invoke action.effect) := by
      cases action.effect with
      | change change => exact completes_enact change
      | invoke call => exact hinvoke call
    refine Completes.bind (happly.bind fun outcome => ?_) fun _ => ih
    cases outcome with
    | ok => exact completes_pure ()
    | error e =>
      exact Completes.bind (fun _ => completesAt_changeScene rfl) fun _ => completes_logOne _ _

theorem completes_update (dt : Float) : Completes (update invoke dt) := by
  refine fun world => (completesAt_changeScene rfl).bind fun _ world => ?_
  refine completesAt_scene_bind (completesAt_scene_bind ?_)
  refine (completesAt_changeScene rfl).bind fun _ => ?_
  exact (completes_fireAll hinvoke _).bind fun _ => completes_animate dt

theorem completes_advanceClock (seconds : Float) : Completes (advanceClock invoke seconds) := by
  refine fun world => completesAt_scene_bind ?_
  split
  · exact completes_pure _ world
  · exact (completes_update hinvoke _ world).bind fun _ => completes_pure _

end

/-! ## Evaluation -/

private theorem completes_elapse {invoke : Invoker Session}
    (hinvoke : ∀ call, Completes (invoke call)) (seconds : Float) :
    Completes (Session.elapse invoke seconds) := by
  refine fun world => completesAt_scene_bind ?_
  split
  · refine completesAt_scene_bind ?_
    split
    · rename_i next hdelay
      refine (completesAt_changeScene ?_).bind fun _ => completes_pure _
      rw [Scene.scheduleDelay] at hdelay
      split at hdelay
      · rw [← Except.ok.inj hdelay]
      · cases hdelay
    · exact completes_pure _ world
  · exact completes_advanceClock hinvoke seconds world

private theorem completes_buildHost (typeName : String) (positional : List Value)
    (properties : PropertyMap) : Completes (Session.buildHost typeName positional properties) := by
  refine completes_host.bind fun session => (completes_log _).bind fun _ => ?_
  split
  · refine fun world => completesAt_scene_bind ?_
    exact (completesAt_changeScene rfl).bind fun _ => completes_pure _
  · exact (completes_logOne _ _).bind fun _ => completes_pure _
  · exact (completes_logOne _ _).bind fun _ => completes_pure _

private theorem completes_commonProperties (object : ObjectRef) :
    Completes (Standard.commonProperties object) := by
  rw [Standard.commonProperties]
  split
  · exact completes_pure ()
  · refine completes_host.bind fun session world => completesAt_changeScene ?_
    split <;> rfl

/-- The steps of evaluation end. -/
theorem completes_rules : Play.Rules fun m => Completes m where
  pure := completes_pure
  bind := .bind
  look _ world := completesAt_scene_bind (completes_pure _ world)
  session := completes_host
  log := completes_log
  logOne := completes_logOne
  changeSession f _ := completes_changeHost f
  schedule _ _ _ := completesAt_changeScene rfl
  scheduleAll _ _ _ := completesAt_changeScene rfl
  buildHost := completes_buildHost
  commonProperties := completes_commonProperties
  elapse := completes_elapse

/-- A player makes any step. -/
theorem Player.exists_update {player : Player} (h : player.world.scene.bounds.Nonnegative)
    (dt : Float) : ∃ next, player.update dt = .ok next ∧
      next.world.scene.bounds = player.world.scene.bounds := by
  have hinvoke := (completes_rules.outermost completes_rules.standard).invoke
  obtain ⟨_, world, hrun, hnext⟩ := completes_update hinvoke dt player.world h
  refine ⟨{ player with world }, ?_, hnext⟩
  change (Session.update Standard.commands dt).run player.world >>= _ = _
  rw [Session.update, hrun]
  rfl

/-- A player of any script plays any steps. -/
theorem Player.exists_play {settings : Settings} (h : settings.bounds.Nonnegative)
    (script : Script) (steps : List Float) :
    ∃ player, play script settings steps = .ok player ∧
      player.world.scene.bounds = settings.bounds := by
  induction steps using List.reverseRecOn with
  | nil =>
    have hrecord : Completes (record script) :=
      (completes_log _).bind fun _ =>
        (completes_rules.run completes_rules.standard script.statements).bind fun _ =>
          completes_finishRecording.bind fun _ =>
            completes_host.bind fun _ => completes_logOne _ _
    obtain ⟨_, next, hrun, hnext⟩ := hrecord (.initial settings.bounds (.ofSettings settings)) h
    exact ⟨⟨script, next⟩, by rw [play, hrun]; rfl, hnext⟩
  | append_singleton steps dt ih =>
    obtain ⟨player, hplay, hbounds⟩ := ih
    obtain ⟨next, hupdate, hnext⟩ := exists_update (hbounds.symm ▸ h) dt
    refine ⟨next, ?_, hnext.trans hbounds⟩
    rw [play_concat, hplay]
    exact hupdate

/-! ## Random numbers -/

/-- A draw, if the ends of the interval are finite, the lower one first, and so is their
distance. -/
def Random.Source.between? (source : Random.Source) (low high : Float) (attempts : Nat) :
    Option (Float × Random.Source) :=
  if low.isFinite ∧ high.isFinite ∧ low < high ∧ (high - low).isFinite then
    some (source.between low high attempts)
  else none

/-- `Random()` or `Random(min, max)`, with an alarm where a draw fails. -/
def Standard.randomOr (alarm : Play Value) : Global := fun _ arguments => do
  let low := (arguments.number? 0 "min").getD 0
  let high := (arguments.number? 1 "max").getD 1
  if !low.isFinite then return .number 0
  if !high.isFinite || high ≤ low || !(high - low).isFinite then return .number low
  match (← Play.session).random.between? low high Random.attemptLimit with
  | none => alarm
  | some (drawn, source) =>
    Play.changeSession fun session => { session with random := source }
    return .number drawn

/-- What is finite is in order. -/
private theorem lt_of_not_le {x y : Float} (hx : x.isFinite = true) (hy : y.isFinite = true)
    (h : ¬ y ≤ x) : x < y := by
  have hx := isNaN_eq_false_of_isFinite hx
  have hy := isNaN_eq_false_of_isFinite hy
  rw [le_iff_rank hy hx, not_le] at h
  exact (lt_iff_rank hx hy).mpr h

/-- Whatever the alarm is, it is not raised: where there is no room for a draw none is made. -/
theorem Standard.randomOr_eq (alarm : Play Value) : randomOr alarm = random := by
  funext wait arguments
  unfold randomOr random
  dsimp only
  generalize (arguments.number? 0 "min").getD 0 = low
  generalize (arguments.number? 1 "max").getD 1 = high
  split
  · rfl
  rename_i hlow
  split
  · rfl
  rename_i hroom
  have hlow : low.isFinite = true := by simpa using hlow
  obtain ⟨⟨hhigh, horder⟩, hdistance⟩ : (high.isFinite = true ∧ ¬ high ≤ low) ∧
      (high - low).isFinite = true := by simpa using hroom
  have hdraw (source : Random.Source) : source.between? low high Random.attemptLimit =
      some (source.between low high Random.attemptLimit) :=
    if_pos ⟨hlow, hhigh, lt_of_not_le hlow hhigh horder, hdistance⟩
  refine bind_congr fun session => ?_
  rw [hdraw]

/-! ## Players -/

/-- Nothing goes wrong for a player with some settings, whatever it is given. -/
structure Player.Faultless (settings : Settings) : Prop where
  /-- Every script is loaded and every step is played: no position is brought between bounds that
  are the wrong way round. -/
  plays : ∀ (source : String) (steps : List Float), ∃ player,
    (load source settings >>= fun player => steps.foldlM update player) = .ok player
  /-- Reading a script takes no character that is not there, also inside literals. -/
  parses : ∀ (alarm : Diagnostic) (source : String), Script.parseOr alarm source = .parse source
  /-- A parser finds a token wherever it looks. -/
  sees : ∀ (position : Position) (text : List Char),
    Sighted (Reader.ofTokens (TokenStream.ofText position text).tokens).tokens
  /-- Random numbers are drawn only between finite ends in order, at a finite distance. -/
  draws : ∀ alarm : Play Value, Standard.randomOr alarm = Standard.random
  /-- Resampling takes no point that is not there. -/
  samples : ∀ (loop : List Point) (count : Nat), resample? loop count = some (resample loop count)
  /-- Every tween of a shape pairs outlines of equal length. -/
  blends : ∀ (source target : Outline) (duration : Float) (easing : Easing) (commit : ShapeCommit),
    ShapeTween.start? source target duration easing commit =
      some (.start source target duration easing commit)

/-- Bounds that are not negative are all that a player needs. -/
theorem Player.faultless_of_nonneg {settings : Settings} (hx : 0 ≤ settings.bounds.x)
    (hy : 0 ≤ settings.bounds.y) : Faultless settings where
  plays source steps := by
    obtain ⟨player, hplay, -⟩ := exists_play ⟨hx, hy⟩ (Script.parse source) steps
    exact ⟨player, (load_bind_foldlM source).trans hplay⟩
  parses := Script.parseOr_eq
  sees := sighted_ofText
  draws := Standard.randomOr_eq
  samples := resample?_eq
  blends := ShapeTween.start?_eq

theorem Player.faultless_of_nonneg_default :
    0 ≤ Settings.default.bounds.x ∧ 0 ≤ Settings.default.bounds.y ∧ Faultless .default := by
  have hx : 0 ≤ Settings.default.bounds.x := by decide
  have hy : 0 ≤ Settings.default.bounds.y := by decide
  exact ⟨hx, hy, faultless_of_nonneg hx hy⟩

end Animatic
