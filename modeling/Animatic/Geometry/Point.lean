import Animatic.Number.Exact

/-!
# Points and placements

Points of the plane in binary32. A point with a coordinate that is not a number is no vertex: it
separates the loops of an outline.
-/

namespace Animatic

/-- A point of the plane. -/
structure Point where
  x : Float32
  y : Float32

namespace Point

/-- The point that separates loops. -/
def separator : Point := ⟨0 / 0, 0 / 0⟩

/-- The point with both coordinates zero. -/
def origin : Point := ⟨0, 0⟩

/-- Whether a point separates loops. -/
def isSeparator (p : Point) : Bool := p.x.isNaN || p.y.isNaN

/-- Whether two points have equal coordinates; zeros of both signs are equal. -/
def same (p q : Point) : Bool := p.x == q.x && p.y == q.y

/-- The point a share `t` of the way from `p` to `q`, exact at both ends. -/
def blend (p q : Point) (t : Float32) : Point :=
  ⟨p.x * (1 - t) + q.x * t, p.y * (1 - t) + q.y * t⟩

end Point

/-- The placement of a primitive: offset, scale along each axis, rotation in degrees. -/
structure Transform where
  x : Float32
  y : Float32
  scaleX : Float32
  scaleY : Float32
  rotation : Float32

namespace Transform

/-- No displacement, no scaling and no rotation. -/
def identity : Transform := ⟨0, 0, 1, 1, 0⟩

/-- Half a turn in radians. -/
def halfTurn : Float32 := 3.1415927

/-- Takes a point from the primitive into the scene: scaled, then rotated, then moved. Separators
stay as they are. -/
def apply (t : Transform) (p : Point) : Point :=
  if p.isSeparator then p
  else
    let angle := t.rotation * (halfTurn / 180)
    let sin := angle.sin
    let cos := angle.cos
    let sx := p.x * t.scaleX
    let sy := p.y * t.scaleY
    ⟨sx * cos - sy * sin + t.x, sx * sin + sy * cos + t.y⟩

end Transform

end Animatic
