/-
  What changes come to.

  A change looks something up before it does anything, and what it comes to depends on what is there.
  For every case there is one equation: the error that is reported, or the answer and what there is
  after the change.  Whoever reasons about a change goes through its cases and rewrites by them.

  Mathlib-free.
-/
import IniFile.Document.Step

namespace IniFile

/-! ## Changes of a section -/

namespace SectionEdit

variable {s : Section} {key : Text} {e : Entry}

theorem onEntry_of_none (h : s.find? key = none) (change : Entry → Entry) :
    onEntry s key change = .error (.keyNotFound s.name key) := by
  simp only [onEntry, Section.get, h, Except.map]

theorem onEntry_of_some (h : s.find? key = some e) (change : Entry → Entry) :
    onEntry s key change = .ok (answerEntry (s.modify key change) key, s.modify key change) := by
  simp only [onEntry, Section.get, h, Except.map]

theorem run_insert_of_contains (h : s.contains key = true) (value : Text) :
    (insert key value).run s = .error (.duplicateKey s.name key none) := by
  simp only [run, Section.insert, h, if_true, Except.map]

theorem run_insert_of_not_contains (h : s.contains key = false) (value : Text) :
    (insert key value).run s = .ok (answerEntry (s.set key value) key, s.set key value) := by
  simp only [run, Section.insert, h, Bool.false_eq_true, if_false, Except.map]

theorem run_remove_of_none (h : s.find? key = none) :
    (remove key).run s = .error (.keyNotFound s.name key) := by
  simp only [run, Section.remove, Section.get, h, Except.map]

theorem run_remove_of_some (h : s.find? key = some e) :
    (remove key).run s = .ok (.ofEntry e, s.erase key) := by
  simp only [run, Section.remove, Section.get, h, Except.map]

end SectionEdit

/-! ## What a change of one section leaves -/

namespace Document

@[simp] theorem dialect_modifySection (doc : Document) (name : Text) (change : Section → Section) :
    (doc.modifySection name change).dialect = doc.dialect := by
  unfold modifySection
  cases name.isEmpty <;> rfl

@[simp] theorem capture_modifySection (doc : Document) (name : Text) (change : Section → Section) :
    (doc.modifySection name change).capture = doc.capture := by
  unfold modifySection
  cases name.isEmpty <;> rfl

@[simp] theorem dialect_upsertSection (doc : Document) (name : Text) (change : Section → Section) :
    (doc.upsertSection name change).dialect = doc.dialect := by
  unfold upsertSection
  cases name.isEmpty <;> rfl

@[simp] theorem capture_upsertSection (doc : Document) (name : Text) (change : Section → Section) :
    (doc.upsertSection name change).capture = doc.capture := by
  unfold upsertSection
  cases name.isEmpty <;> rfl

end Document

/-! ## Changes of a document -/

namespace Edit

variable {doc : Document} {name : Text} {s : Section}

theorem run_remove_of_no_section (h : doc.section? name = none) (key : Text) :
    (remove name key).run doc = .error (.sectionNotFound name) := by
  simp only [run, Document.remove, Document.getSection, h, bind, Except.bind, Except.map]

theorem run_remove_of_no_entry (h : doc.section? name = some s) {key : Text}
    (hkey : s.find? key = none) :
    (remove name key).run doc = .error (.keyNotFound s.name key) := by
  simp only [run, Document.remove, Document.getSection, h, Section.get, hkey, bind, Except.bind,
    Except.map]

theorem run_remove_of_some (h : doc.section? name = some s) {key : Text} {e : Entry}
    (hkey : s.find? key = some e) :
    (remove name key).run doc = .ok (.ofEntry e,
      { doc.modifySection name (·.erase key) with capture := doc.capture.forgetEntry e.id }) := by
  simp only [run, Document.remove, Document.getSection, h, Section.get, hkey, bind, Except.bind,
    Except.map, pure, Except.pure, Document.capture_modifySection]

theorem run_insertSection_of_hasSection (h : doc.hasSection name = true) :
    (insertSection name).run doc = .error (.duplicateSection name none) := by
  simp only [run, Document.insertSection, h, if_true, Except.map]

theorem run_insertSection_of_not_hasSection (h : doc.hasSection name = false) :
    (insertSection name).run doc =
      .ok (answerSection (doc.ensureSection name) name, doc.ensureSection name) := by
  simp only [run, Document.insertSection, h, Bool.false_eq_true, if_false, Except.map]

theorem run_removeSection_of_none (h : doc.section? name = none) :
    (removeSection name).run doc = .error (.sectionNotFound name) := by
  simp only [run, Document.removeSection, Document.getSection, h, bind, Except.bind, Except.map]

/-- The global section stays, without entries. -/
theorem run_removeSection_nil (doc : Document) :
    (removeSection []).run doc = .ok (.ofSection doc.global, { doc with
      global := doc.global.clear
      capture := doc.capture.forgetSection doc.global.id }) :=
  rfl

theorem run_removeSection_of_some (hname : name ≠ []) (h : doc.section? name = some s) :
    (removeSection name).run doc = .ok (.ofSection s, { doc with
      sections := doc.sections.erase name
      capture := doc.capture.forgetSection s.id }) := by
  simp only [run, Document.removeSection, Document.getSection, h, bind, Except.bind, pure,
    Except.pure, Except.map, List.isEmpty_eq_false_iff.mpr hname, Bool.false_eq_true, if_false]

theorem run_inSection_of_none (h : doc.section? name = none) (edit : SectionEdit) :
    (inSection name edit).run doc = .error (.sectionNotFound name) := by
  simp only [run, Document.getSection, h, bind, Except.bind]

theorem run_inSection_of_error (h : doc.section? name = some s) {edit : SectionEdit} {err : Error}
    (hedit : edit.run s = .error err) : (inSection name edit).run doc = .error err := by
  simp only [run, Document.getSection, h, hedit, bind, Except.bind]

theorem run_inSection_of_ok (h : doc.section? name = some s) {edit : SectionEdit} {answer : Answer}
    {next : Section} (hedit : edit.run s = .ok (answer, next)) :
    (inSection name edit).run doc = .ok (answer, doc.modifySection name fun _ => next) := by
  simp only [run, Document.getSection, h, hedit, bind, Except.bind, pure, Except.pure]

theorem run_setIfSection_of_hasSection (h : doc.hasSection name = true) (key value : Text) :
    (setIfSection name key value).run doc =
      .ok (answerEntry (doc.set name key value) name key, doc.set name key value) := by
  simp only [run, h, if_true]

theorem run_setIfSection_of_not_hasSection (h : doc.hasSection name = false) (key value : Text) :
    (setIfSection name key value).run doc = .ok (.entry none, doc) := by
  simp only [run, h, Bool.false_eq_true, if_false]

end Edit
end IniFile
