import JavaModel.Event

/-! The outline of what is told: events without their lines, and with the raw text that is kept of a
source left blank. Whether there is raw text still shows. -/

namespace JavaModel

/-- Raw text left blank where there is any. -/
def blanked (raw : Option String) : Option String := raw.map fun _ => ""

def AnnotationUse.outline (a : AnnotationUse String) : AnnotationUse String :=
  { a with args := blanked a.args }

/-- Annotations without their arguments. -/
def outlines (as : List (AnnotationUse String)) : List (AnnotationUse String) :=
  as.map AnnotationUse.outline

namespace Written

def Package.outline (p : Package) : Package :=
  { p with annotations := outlines p.annotations, line := 0 }

def Class.outline (c : Class) : Class :=
  { c with annotations := outlines c.annotations, line := 0 }

def Field.outline (f : Field) : Field :=
  { f with annotations := outlines f.annotations, initializer := blanked f.initializer, line := 0 }

def Parameter.outline (p : Parameter) : Parameter :=
  { p with annotations := outlines p.annotations }

def Method.outline (m : Method) : Method :=
  { m with annotations := outlines m.annotations, parameters := m.parameters.map Parameter.outline,
           body := blanked m.body, defaultValue := blanked m.defaultValue, line := 0 }

end Written

def Import.outline (i : Import) : Import := { i with line := 0 }

def Event.outline : Event → Event
  | .package p => .package p.outline
  | .imports i => .imports i.outline
  | .beginClass c => .beginClass c.outline
  | .beginField f => .beginField f.outline
  | .beginMethod m => .beginMethod m.outline
  | e => e

/-- The same is told, up to lines and raw text. -/
def ToldAlike (es fs : List Event) : Prop := es.map Event.outline = fs.map Event.outline

namespace ToldAlike

variable {es es' fs fs' : List Event}

theorem refl (es : List Event) : ToldAlike es es := rfl

theorem append (h : ToldAlike es fs) (h' : ToldAlike es' fs') :
    ToldAlike (es ++ es') (fs ++ fs') := by
  unfold ToldAlike at *
  rw [List.map_append, List.map_append, h, h']

end ToldAlike

end JavaModel
