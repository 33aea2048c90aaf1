import Animatic.Motion.ShapeTween
import Animatic.Scene.Shape

/-!
# Primitives

A primitive is something that can be drawn: an outline with its placement and colour, together with
the motions that are running on it.

* `Primitive.advance` moves a primitive by one step: velocity, then tweens, then the shape tween.
* `Primitive.visibleLoops` is what is drawn of it.
-/

namespace Animatic

/-- A colour. -/
structure Color where
  red : Float32
  green : Float32
  blue : Float32
  alpha : Float32

/-- Half the width and half the height of the box in which primitives bounce. -/
structure Bounds where
  x : Float32
  y : Float32

/-- What no step can go on from. -/
inductive Fault where
  /-- A position was to be brought into an interval whose ends are the wrong way round. -/
  | invertedBounds
  deriving DecidableEq, Repr

/-- Whether the inside of an outline is painted or only its line. -/
inductive FillMode where
  | filled
  | stroked
  deriving DecidableEq, Repr

/-- The name of a fill mode in messages. -/
def FillMode.title : FillMode → String
  | filled => "Filled"
  | stroked => "Stroked"

/-- Something that can be drawn, with the motions running on it. -/
structure Primitive where
  shape : Shape
  transform : Transform
  color : Color
  outline : Outline
  filled : Bool
  /-- Whether each loop leads back to its first point. -/
  closed : Bool
  reveal : Float32
  velocityX : Float32
  velocityY : Float32
  tweens : List Tween
  shapeTween : Option ShapeTween

namespace Primitive

/-- A primitive at rest in the origin, white and wholly revealed. Lines alone are open. -/
def ofShape (shape : Shape) (outline : Outline) (filled : Bool) : Primitive :=
  { shape, outline, filled
    transform := .identity
    color := ⟨1, 1, 1, 1⟩
    closed := shape.kind != .line
    reveal := 1
    velocityX := 0
    velocityY := 0
    tweens := []
    shapeTween := none }

/-- A rectangle. -/
def rect (width height : Float32) (filled : Bool) : Primitive :=
  ofShape (.rect width height) (.rect width height) filled

/-- A circle. -/
def circle (radius : Float32) (segments : Nat) (filled : Bool) : Primitive :=
  ofShape (.circle radius segments) (.circle radius segments) filled

/-- A polygon with the given outline. -/
def polygon (outline : Outline) (filled : Bool) : Primitive := ofShape .polygon outline filled

/-- A line between two points. -/
def line (start stop : Vec3) : Primitive :=
  ofShape (.line start stop) [⟨start.x, start.y⟩, ⟨stop.x, stop.y⟩] false

/-- The loops of glyphs set one behind the other from `pen`, on a baseline. -/
def layGlyphs (baseline : Float32) : Float32 → List Glyph → List (List Point)
  | _, [] => []
  | pen, glyph :: rest =>
    glyph.loops.map (·.map fun p => ⟨p.x + pen, p.y + baseline⟩)
      ++ layGlyphs baseline (pen + glyph.advance) rest

/-- A text set in boxes, one for each character that is not white space. -/
def text (content : String) (size : Float32) (font : String) (align : Align) : Primitive :=
  let glyphs := content.toList.map fun c => Glyph.box (Text.isBlank c) size
  let width := glyphs.foldl (fun width glyph => width + glyph.advance) 0
  let pen :=
    match align with
    | .left => 0
    | .center => -width * 0.5
    | .right => -width
  ofShape (.text content size font align) (.ofLoops (layGlyphs (-size * 0.5) pen glyphs)) true

/-- The kind of a primitive. -/
def kind (p : Primitive) : PrimitiveKind := p.shape.kind

/-- How a primitive is painted. -/
def fillMode (p : Primitive) : FillMode := if p.filled then .filled else .stroked

/-- The value of a channel. -/
def get (p : Primitive) (channel : Channel) : Float :=
  Number.widen <|
    match channel with
    | .x => p.transform.x
    | .y => p.transform.y
    | .scaleX => p.transform.scaleX
    | .scaleY => p.transform.scaleY
    | .rotation => p.transform.rotation
    | .red => p.color.red
    | .green => p.color.green
    | .blue => p.color.blue
    | .alpha => p.color.alpha
    | .reveal => p.reveal

/-- Gives a channel a value. -/
def set (p : Primitive) (channel : Channel) (value : Float) : Primitive :=
  let value := Number.narrow value
  match channel with
  | .x => { p with transform.x := value }
  | .y => { p with transform.y := value }
  | .scaleX => { p with transform.scaleX := value }
  | .scaleY => { p with transform.scaleY := value }
  | .rotation => { p with transform.rotation := value }
  | .red => { p with color.red := value }
  | .green => { p with color.green := value }
  | .blue => { p with color.blue := value }
  | .alpha => { p with color.alpha := value }
  | .reveal => { p with reveal := value }

/-- Starts a tween of a channel from its present value. -/
def startTween (p : Primitive) (channel : Channel) (target duration : Float) (easing : Easing) :
    Primitive :=
  { p with
    tweens := p.tweens ++
      [{ channel, start := p.get channel, target, duration, elapsed := 0, easing }] }

/-- Whether a tween drives a channel. -/
def isTweening (p : Primitive) (channel : Channel) : Bool := p.tweens.any (·.channel == channel)

/-- One coordinate after a step: a position that has left the interval from `-bound` to `bound` is
brought back to its end, and the velocity turns round. -/
def bounce (bound position velocity : Float32) : Except Fault (Float32 × Float32) :=
  if bound < position.abs then
    if -bound ≤ bound then
      let raised := if position < -bound then -bound else position
      .ok (if bound < raised then bound else raised, -velocity)
    else .error .invertedBounds
  else .ok (position, velocity)

/-- Moves a primitive by its velocity. One that does not move is left where it is, even outside the
bounds. -/
def move (p : Primitive) (dt : Float32) (bounds : Bounds) : Except Fault Primitive :=
  if p.velocityX == 0 && p.velocityY == 0 then .ok p
  else do
    let (x, velocityX) ← bounce bounds.x (p.transform.x + p.velocityX * dt) p.velocityX
    let (y, velocityY) ← bounce bounds.y (p.transform.y + p.velocityY * dt) p.velocityY
    return { p with transform := { p.transform with x, y }, velocityX, velocityY }

/-- Advances tweens one after the other, each setting its channel, and keeps the ones that are not
complete. -/
def runTweens (dt : Float) : List Tween → Primitive → List Tween × Primitive
  | [], p => ([], p)
  | tween :: rest, p =>
    let tween := tween.later dt
    let (rest, p) := runTweens dt rest (p.set tween.channel (tween.valueAt tween.progress))
    (if tween.isComplete then rest else tween :: rest, p)

/-- Advances the tweens of a primitive. -/
def advanceTweens (p : Primitive) (dt : Float) : Primitive :=
  let (tweens, moved) := runTweens dt p.tweens p
  { moved with tweens }

/-- Advances the shape tween of a primitive. A tween that completes leaves its commit behind. -/
def advanceShape (p : Primitive) (dt : Float) : Primitive × Option ShapeCommit :=
  match p.shapeTween with
  | none => (p, none)
  | some tween =>
    let tween := tween.later dt
    if tween.isComplete then
      let commit := tween.commit
      ({ p with outline := commit.outline, filled := commit.filled, shapeTween := none },
        some commit)
    else ({ p with outline := tween.outline, shapeTween := some tween }, none)

/-- Advances a primitive by `dt` seconds and tells what a shape tween that completed leaves
behind. -/
def advance (p : Primitive) (dt : Float) (bounds : Bounds) :
    Except Fault (Primitive × Option ShapeCommit) := do
  let moved ← p.move (Number.narrow dt) bounds
  return (moved.advanceTweens dt).advanceShape dt

/-- The loops that are drawn: the front part of each, as long as the reveal says. -/
def visibleLoops (p : Primitive) : List (List Point) :=
  if 1 ≤ p.reveal then p.outline.loops
  else
    let reveal := Number.greatest32 p.reveal 0
    let shown := p.outline.loops.map fun loop =>
      loop.take (Number.ceilWithin Number.longLimit
        (Number.exact32 (Float32.ofNat loop.length * reveal)))
    shown.filter (!·.isEmpty)

end Primitive

end Animatic
