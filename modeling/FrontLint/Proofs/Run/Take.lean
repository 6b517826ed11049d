import FrontLint.Run

/-!
# Documents in turn

A document is processed and then counted as processed, skipped or failed, unless its fault stops
the run. Documents in order are taken one by one up to such a fault.
-/

namespace FrontLint

namespace Progress

variable {cache : Cache} {console : Option Console} {p p' : Progress} {file : List Char}
  {fault : Fault}

/-- The progress with a document that is processed and not yet counted. -/
def afterProcess [HashSeed] (cache : Cache) (p : Progress) (file : List Char) : Progress :=
  { p with
    files := (cache.process file p.files).2
    notes := p.notes ++ (cache.process file p.files).1.notes }

@[simp] theorem reportTo_none (p : Progress) (file : List Char) :
    p.reportTo none file = (p, none) := rfl

@[simp] theorem files_reportTo (p : Progress) (file : List Char) :
    (p.reportTo console file).1.files = p.files := by
  cases console with
  | none => rfl
  | some printer =>
      simp only [reportTo]
      split <;> rfl

@[simp] theorem report_reportTo (p : Progress) (file : List Char) :
    (p.reportTo console file).1.report = p.report := by
  cases console with
  | none => rfl
  | some printer =>
      simp only [reportTo]
      split <;> rfl

/-- The line for a document is printed, if there is a console, or the console refuses it. -/
theorem reportTo_cases (console : Option Console) (p : Progress) (file : List Char) :
    (p.reportTo console file).2 = none ∨
      ∃ printer reason, console = some printer ∧
        printer (Console.processed file) = .error reason ∧
        (p.reportTo console file).2 = some (.console reason) := by
  cases console with
  | none => exact .inl rfl
  | some printer =>
      cases h : printer (Console.processed file) with
      | ok shown => exact .inl (by simp only [reportTo, h])
      | error reason => exact .inr ⟨printer, reason, rfl, h, by simp only [reportTo, h]⟩

/-- What is printed for a document depends on nothing but its name. -/
theorem reportTo_congr (h : p.printed = p'.printed) (console : Option Console)
    (file : List Char) :
    (p.reportTo console file).2 = (p'.reportTo console file).2 ∧
      (p.reportTo console file).1.printed = (p'.reportTo console file).1.printed := by
  cases console with
  | none => exact ⟨rfl, h⟩
  | some printer =>
      cases hline : printer (Console.processed file) with
      | ok shown => simp only [reportTo, hline, h, and_self]
      | error reason => simp only [reportTo, hline, h, and_self]

variable [HashSeed]

theorem take_of_ok_some {target : Path}
    (h : (cache.process file p.files).1.result = .ok (some target)) :
    take cache console p file =
      (p.afterProcess cache file).countProcessed.reportTo console file := by
  simp only [take, h, afterProcess]

theorem take_of_ok_none (h : (cache.process file p.files).1.result = .ok none) :
    take cache console p file = ((p.afterProcess cache file).countSkipped file, none) := by
  simp only [take, h, afterProcess]

theorem take_of_isOfDocument (h : (cache.process file p.files).1.result = .error fault)
    (hdoc : fault.isOfDocument = true) :
    take cache console p file = ((p.afterProcess cache file).countFailed file fault, none) := by
  simp only [take, h, hdoc, if_true, afterProcess]

theorem take_of_not_isOfDocument (h : (cache.process file p.files).1.result = .error fault)
    (hdoc : fault.isOfDocument = false) :
    take cache console p file = (p.afterProcess cache file, some fault) := by
  simp only [take, h, hdoc, Bool.false_eq_true, if_false, afterProcess]

theorem files_take (p : Progress) (file : List Char) :
    (take cache console p file).1.files = (cache.process file p.files).2 := by
  rw [take]
  simp only
  split
  · exact files_reportTo _ file
  · rfl
  · split <;> rfl

theorem takeAll_cons_of_none {rest : List (List Char)} (h : (take cache console p file).2 = none) :
    takeAll cache console (file :: rest) p =
      takeAll cache console rest (take cache console p file).1 := by
  cases htake : take cache console p file with
  | mk q stopped =>
      rw [htake] at h
      cases h
      simp only [takeAll, htake]

theorem takeAll_cons_of_some {rest : List (List Char)}
    (h : (take cache console p file).2 = some fault) :
    takeAll cache console (file :: rest) p = take cache console p file := by
  cases htake : take cache console p file with
  | mk q stopped =>
      rw [htake] at h
      cases h
      simp only [takeAll, htake]

/-- What projecting any one document keeps is kept by projecting them all. -/
theorem takeAll_keeps {P : FileTree → Prop} (hstep : ∀ file t, P t → P (cache.process file t).2)
    (documents : List (List Char)) {p : Progress} (h : P p.files) :
    P (takeAll cache console documents p).1.files := by
  induction documents generalizing p with
  | nil => exact h
  | cons file rest ih =>
      have hnext : P (take cache console p file).1.files := by
        rw [files_take]
        exact hstep file p.files h
      rw [takeAll]
      split
      · rename_i next ht
        rw [ht] at hnext
        exact ih hnext
      · exact hnext

theorem takeAll_cons_eq_none_iff {rest : List (List Char)} :
    takeAll cache console (file :: rest) p = (p', none) ↔
      ∃ q, take cache console p file = (q, none) ∧ takeAll cache console rest q = (p', none) := by
  cases htake : take cache console p file with
  | mk q stopped =>
      cases stopped with
      | none =>
          rw [takeAll_cons_of_none (congrArg Prod.snd htake), htake]
          constructor
          · exact fun h => ⟨q, rfl, h⟩
          · rintro ⟨_, hq, h⟩
            cases hq
            exact h
      | some fault =>
          rw [takeAll_cons_of_some (congrArg Prod.snd htake), htake]
          constructor
          · intro h
            cases h
          · rintro ⟨_, hq, -⟩
            cases hq

/-- Documents are all taken if the front ones are, and from there the others. -/
theorem takeAll_append_eq_none_iff {front back : List (List Char)} :
    takeAll cache console (front ++ back) p = (p', none) ↔
      ∃ q, takeAll cache console front p = (q, none) ∧
        takeAll cache console back q = (p', none) := by
  induction front generalizing p with
  | nil =>
      constructor
      · exact fun h => ⟨p, rfl, h⟩
      · rintro ⟨q, hq, h⟩
        cases hq
        exact h
  | cons file rest ih =>
      simp only [List.cons_append, takeAll_cons_eq_none_iff, ih]
      constructor
      · rintro ⟨m, hm, q, hq, h⟩
        exact ⟨q, ⟨m, hm, hq⟩, h⟩
      · rintro ⟨q, ⟨m, hm, hq⟩, h⟩
        exact ⟨m, hm, q, hq, h⟩

theorem exists_failed_take (cache : Cache) (console : Option Console) (p : Progress)
    (file : List Char) :
    ∃ more, more.Sublist [file] ∧
      (take cache console p file).1.report.failed = p.report.failed ++ more := by
  cases hresult : (cache.process file p.files).1.result with
  | error fault =>
      cases hdoc : fault.isOfDocument with
      | true =>
          rw [take_of_isOfDocument hresult hdoc]
          exact ⟨[file], List.Sublist.refl _, rfl⟩
      | false =>
          rw [take_of_not_isOfDocument hresult hdoc]
          exact ⟨[], List.nil_sublist _, (List.append_nil _).symm⟩
  | ok found =>
      refine ⟨[], List.nil_sublist _, ?_⟩
      rw [List.append_nil]
      cases found with
      | none => rw [take_of_ok_none hresult]; rfl
      | some target =>
          rw [take_of_ok_some hresult, report_reportTo]
          rfl

/-- The failed documents are among the taken ones, in the same order. -/
theorem exists_failed_takeAll (cache : Cache) (console : Option Console)
    (documents : List (List Char)) (p : Progress) : ∃ more, more.Sublist documents ∧
      (takeAll cache console documents p).1.report.failed = p.report.failed ++ more := by
  induction documents generalizing p with
  | nil => exact ⟨[], List.Sublist.refl _, (List.append_nil _).symm⟩
  | cons file rest ih =>
      obtain ⟨first, hfirst, hfailed⟩ := exists_failed_take cache console p file
      cases hresult : (take cache console p file).2 with
      | none =>
          obtain ⟨more, hmore, hrest⟩ := ih (take cache console p file).1
          refine ⟨first ++ more, hfirst.append hmore, ?_⟩
          rw [takeAll_cons_of_none hresult, hrest, hfailed, List.append_assoc]
      | some fault =>
          refine ⟨first, hfirst.trans (List.sublist_append_left _ _), ?_⟩
          rw [takeAll_cons_of_some hresult, hfailed]

end Progress

end FrontLint
