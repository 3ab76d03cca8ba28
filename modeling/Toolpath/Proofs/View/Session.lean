import Toolpath.View.Viewer

/-!
# Sessions with a viewer

A session is a list of actions, carried out from a viewer that shows nothing yet.
-/

namespace Toolpath

inductive CameraMove where
  | zoomIn
  | zoomOut
  | resetZoom
  | resetPan
  | panRight (extent : Float32)
  | panLeft (extent : Float32)
  | panUp (extent : Float32)
  | panDown (extent : Float32)
  | fit (width height : Float32)

inductive Action where
  /-- A new viewer takes the place of the old one. -/
  | start (config : Config)
  | setConfig (config : Config)
  | load (text : String)
  | render (camera : Camera) (filter : Filter)
  | clearDirty
  | move (m : CameraMove)
  /-- The camera is set outright. -/
  | place (camera : Camera)

namespace Viewer

def moveCamera (v : Viewer) : CameraMove → Viewer
  | .zoomIn => v.zoomIn
  | .zoomOut => v.zoomOut
  | .resetZoom => v.resetZoom
  | .resetPan => v.resetPan
  | .panRight extent => v.panRight extent
  | .panLeft extent => v.panLeft extent
  | .panUp extent => v.panUp extent
  | .panDown extent => v.panDown extent
  | .fit width height => v.fit width height

def act (v : Viewer) : Action → Viewer
  | .start config => ofConfig config
  | .setConfig config => v.setConfig config
  | .load text => (v.load text).2
  | .render camera filter => (v.render camera filter).2
  | .clearDirty => v.clearDirty
  | .move m => v.moveCamera m
  | .place camera => { v with camera := camera }

/-- The viewer at the end of a session. -/
def session (config : Config) (actions : List Action) : Viewer := actions.foldl act (ofConfig config)

theorem session_concat (config : Config) (actions : List Action) (a : Action) :
    session config (actions ++ [a]) = (session config actions).act a := by
  unfold session
  rw [List.foldl_append, List.foldl_cons, List.foldl_nil]

theorem moveCamera_eq (v : Viewer) (m : CameraMove) :
    v.moveCamera m = { v with camera := (v.moveCamera m).camera } := by
  cases m with
  | fit width height =>
    unfold moveCamera fit
    cases v.document.cuttingBounds? with
    | none => rfl
    | some b => dsimp only; split <;> rfl
  | _ => rfl

end Viewer

end Toolpath
