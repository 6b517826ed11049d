import FrontLint.Proofs.Cache.Confined
import FrontLint.Proofs.Files.Consults

/-!
# Caches and a place they do not look at

A cache that looks at or below a place on none of its paths does the same without that place: it
gives the same answers, and the trees it leaves differ by the place only.
-/

namespace FrontLint

namespace FileTree

/-- Under an invariant that making the directories of a path keeps, no front part of the path
looks at or below a place. -/
structure Spares (P : FileTree → Prop) (place : Location) (p : Path) : Prop where
  makeDirectory : ∀ t t' names, names <+: p.names → P t →
    t.makeDirectory (Path.mk p.anchor names).text = .ok t' → P t'
  avoids : ∀ t names, names <+: p.names → P t → t.Avoids (Path.mk p.anchor names).text place

namespace Spares

variable {P : FileTree → Prop} {place : Location} {p : Path} {t : FileTree}

theorem parent (h : Spares P place p) : Spares P place p.parent where
  makeDirectory t t' names hnames :=
    h.makeDirectory t t' names (hnames.trans (List.dropLast_prefix _))
  avoids t names hnames := h.avoids t names (hnames.trans (List.dropLast_prefix _))

theorem ensurePath (h : Spares P place p) (ht : P t) : P (t.ensurePath p).2 :=
  ensurePath_keeps p h.makeDirectory ht

theorem ensurePath_removeBelow (h : Spares P place p) (hne : place ≠ []) (ht : P t) :
    (t.removeBelow place).ensurePath p =
      ((t.ensurePath p).1, (t.ensurePath p).2.removeBelow place) :=
  FileTree.ensurePath_removeBelow hne p h.makeDirectory h.avoids ht

end Spares

/-- Below a place without links, names other than dots consult only what is below it. -/
theorem isPrefix_of_consults {t : FileTree} {links : Nat} {place location : Location}
    {names : List FileName} (hlinks : t.LinkFree place)
    (hplain : ∀ name ∈ names, name.IsPlain) (hc : t.Consults links place names location) :
    place <+: location := by
  induction names generalizing place with
  | nil => exact absurd hc not_consults_nil
  | cons name rest ih =>
      have hname := hplain name (by simp)
      cases hc with
      | here hc => exact absurd rfl hname.isRead.ne_here
      | above hc => exact absurd rfl hname.ne_above
      | name _ => exact List.prefix_append _ _
      | down _ _ hc =>
          refine (List.prefix_append place [name]).trans (ih ?_ ?_ hc)
          · exact fun location target hp => hlinks location target
              ((List.prefix_append _ _).trans hp)
          · exact fun other hother => hplain other (by simp [hother])
      | link _ hl hc => exact absurd hl (hlinks _ _ (List.prefix_append _ _))

theorem readText_removeBelow {t : FileTree} {place : Location} {path : List Char}
    (h : t.Avoids path place) (hne : place ≠ []) :
    (t.removeBelow place).readText path = t.readText path := by
  rw [readText, readText, read_removeBelow h hne]

end FileTree

namespace Cache

open FileTree

variable {P : FileTree → Prop} {c : Cache} {place : Location} {t : FileTree}

theorem create_removeBelow {directory base : Path} {name : FileName}
    (h : Spares P place directory) (hne : place ≠ []) (ht : P t)
    (hroot : ∀ t, P t → t.Avoids (Glob.attach directory.text name) place) :
    create directory base name (t.removeBelow place) =
      ((create directory base name t).1, (create directory base name t).2.removeBelow place) := by
  have hmake := makeDirectory_removeBelow (hroot _ (h.ensurePath ht)) hne
  rw [create, create, h.ensurePath_removeBelow hne ht]
  cases hens : t.ensurePath directory with
  | mk result made =>
      rw [hens] at hmake
      cases result with
      | error fault => rfl
      | ok done =>
          simp only [hmake]
          cases made.makeDirectory (Glob.attach directory.text name) <;> rfl

theorem write_removeBelow_of_spares {source : Path} (h : Spares P place (c.pathFor source))
    (hne : place ≠ []) (ht : P t) (p : Projection) :
    c.write source p (t.removeBelow place) =
      ((c.write source p t).1, (c.write source p t).2.removeBelow place) := by
  have hwrite := FileTree.write_removeBelow
    (h.avoids _ _ (List.prefix_refl _) (h.parent.ensurePath ht)) hne
  rw [write, write, h.parent.ensurePath_removeBelow hne ht]
  cases hens : t.ensurePath (c.pathFor source).parent with
  | mk result made =>
      rw [hens] at hwrite
      cases result with
      | error fault => rfl
      | ok done =>
          cases Utf8.encode p.text with
          | ok content =>
              simp only [hwrite]
              cases made.write (c.pathFor source).text content <;> rfl
          | error fault =>
              simp only [hwrite]
              cases made.write (c.pathFor source).text [] <;> rfl

theorem project_removeBelow_of_avoids [HashSeed] {file : List Char}
    (h : t.Avoids (c.base.join (.ofText file)).text place) (hne : place ≠ []) :
    c.project file (t.removeBelow place) = c.project file t := by
  rw [project, project, readText_removeBelow h hne]

theorem process_removeBelow [HashSeed] {file : List Char}
    (hread : t.Avoids (c.base.join (.ofText file)).text place)
    (h : Spares P place (c.pathFor (.ofText file))) (hne : place ≠ []) (ht : P t) :
    c.process file (t.removeBelow place) =
      ((c.process file t).1, (c.process file t).2.removeBelow place) := by
  rw [process, process, project_removeBelow_of_avoids hread hne]
  split
  · rfl
  · rfl
  · rw [write_removeBelow_of_spares h hne ht]

theorem remove_removeBelow_of_avoids (h : t.Avoids c.root.text place) (hne : place ≠ []) :
    c.remove (t.removeBelow place) = ((c.remove t).1, (c.remove t).2.removeBelow place) := by
  rw [remove, remove, isThere_removeBelow h hne, removeDirectory_removeBelow h hne]
  split <;> rfl

end Cache

end FrontLint
