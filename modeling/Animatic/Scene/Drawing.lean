import Animatic.Scene.Basic

/-!
# Drawing

What a scene looks like: one draw call for each displayed primitive of which something is visible,
in draw order.
-/

namespace Animatic

/-- Loops to be drawn, and how. -/
structure DrawCall where
  loops : List (List Point)
  transform : Transform
  color : Color
  mode : FillMode

/-- The number of points in some draw calls. -/
def vertexCount (calls : List DrawCall) : Nat :=
  calls.foldr (fun call count => Outline.pointCount call.loops + count) 0

/-- The draw call of a primitive, unless nothing of it is visible. -/
def Primitive.drawCall? (p : Primitive) : Option DrawCall :=
  let loops := p.visibleLoops
  if loops.isEmpty then none else some ⟨loops, p.transform, p.color, p.fillMode⟩

/-- The components of a colour in brackets. -/
def Color.text (color : Color) : String :=
  "[" ++ ", ".intercalate
    ([color.red, color.green, color.blue, color.alpha].map Number.detailedText32) ++ "]"

/-- What is logged about a draw call. -/
def DrawCall.logEntry (call : DrawCall) : LogEntry :=
  ⟨.debug, "draw " ++ call.mode.title ++ " loops=" ++ toString call.loops.length ++ " at ("
    ++ Number.fixed 3 (Number.exact32 call.transform.x) ++ ", "
    ++ Number.fixed 3 (Number.exact32 call.transform.y) ++ ") color=" ++ call.color.text⟩

/-- The draw calls of a scene. -/
def Scene.drawCalls (scene : Scene) : List DrawCall :=
  scene.displayed.filterMap fun (_, p) => p.drawCall?

end Animatic
