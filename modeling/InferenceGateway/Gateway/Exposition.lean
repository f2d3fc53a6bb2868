import InferenceGateway.Common.Exposition
import InferenceGateway.Gateway.Scrapes

/-! # The text of a scrape

Reference: `Metrics::render` in `metrics.rs`, whose lines `metrics_handler` serves as text of the exposition
format.

A line without its value is the same in every scrape. So whatever handlers record in the meantime, a scrape
exposes the same series in the same order, and since none of their names, labels and comments needs an escape,
the text says neither more nor less than the lines that were printed.
-/

namespace InferenceGateway.Gateway

open Common

/-! ## A line as an entry -/

/-- What a line says in the exposition format. -/
def Line.entry : Line → Exposition.Entry
  | .help name text => .help name.toList text.toList
  | .type name metricType => .type name.toList metricType.toList
  | .sample name labels value =>
    .sample name.toList (labels.map fun l => (l.1.toList, l.2.toList)) value.toNat
  | .blank => .blank

/-- The value of the label needs no escapes, and its name is a name. -/
def readableLabel (l : String × String) : Bool :=
  Exposition.isName l.1.toList && l.2.toList.all Exposition.isPlain && !l.2.toList.contains '"'

/-- The texts in the line need no escapes, and its names are names. -/
def Line.readable : Line → Bool
  | .help name text => Exposition.isName name.toList && text.toList.all Exposition.isPlain
  | .type name metricType => Exposition.isName name.toList && Exposition.isName metricType.toList
  | .sample name labels _ =>
    Exposition.isName name.toList && labels.all readableLabel
  | .blank => true

/-- The line with its value left out. -/
def Line.shape : Line → Line
  | .sample name labels _ => .sample name labels 0
  | line => line

/-- The metric and the labels of a sample. -/
def Line.series : Line → Option (String × List (String × String))
  | .sample name labels _ => some (name, labels)
  | _ => none

@[simp] theorem Line.readable_shape (line : Line) : line.shape.readable = line.readable := by
  cases line <;> rfl

@[simp] theorem Line.series_shape (line : Line) : line.shape.series = line.series := by
  cases line <;> rfl

theorem Line.wellNamed_of_readable {line : Line} (h : line.readable = true) : line.entry.WellNamed := by
  cases line with
  | help name text => exact (Bool.and_eq_true_iff.mp h).1
  | type name metricType => exact Bool.and_eq_true_iff.mp h
  | sample name labels value =>
    obtain ⟨hname, hlabels⟩ := Bool.and_eq_true_iff.mp h
    refine ⟨hname, ?_⟩
    intro label hmem
    obtain ⟨l, hl, rfl⟩ := List.mem_map.mp hmem
    exact (Bool.and_eq_true_iff.mp (Bool.and_eq_true_iff.mp (List.all_eq_true.mp hlabels l hl)).1).1
  | blank => trivial

/-- A label that needs no escapes is written as it is. -/
theorem toList_label {l : String × String} (h : readableLabel l = true) :
    (l.1 ++ "=\"" ++ l.2 ++ "\"").toList = Exposition.labelText (l.1.toList, l.2.toList) := by
  obtain ⟨h, hquote⟩ := Bool.and_eq_true_iff.mp h
  obtain ⟨-, hplain⟩ := Bool.and_eq_true_iff.mp h
  have hvalue := Exposition.escapeValue_of_plain (List.all_eq_true.mp hplain) (by simpa using hquote)
  simp [Exposition.labelText, hvalue]

theorem Line.labelText_toList {labels : List (String × String)}
    (h : ∀ l ∈ labels, readableLabel l = true) :
    (Line.labelText labels).toList =
      Exposition.labelsText (labels.map fun l => (l.1.toList, l.2.toList)) := by
  cases labels with
  | nil => rfl
  | cons l ls =>
    have hmap : ((l :: ls).map fun l => l.1 ++ "=\"" ++ l.2 ++ "\"").map String.toList =
        ((l :: ls).map fun l => (l.1.toList, l.2.toList)).map Exposition.labelText := by
      rw [List.map_map, List.map_map]
      exact List.map_congr_left fun l' hl' => toList_label (h l' hl')
    have hbraces : (Line.labelText (l :: ls)).toList =
        '{' :: ([','].intercalate
          (((l :: ls).map fun l => l.1 ++ "=\"" ++ l.2 ++ "\"").map String.toList) ++ ['}']) := by
      rw [Line.labelText, String.toList_append, String.toList_append, String.toList_intercalate]
      · rfl
      · exact List.cons_ne_nil _ _
    rw [hbraces, hmap, List.map_cons, Exposition.intercalate_labelText]
    rfl

theorem Line.text_toList {line : Line} (h : line.readable = true) :
    line.text.toList = line.entry.text ++ ['\n'] := by
  cases line with
  | help name text =>
    obtain ⟨-, hplain⟩ := Bool.and_eq_true_iff.mp h
    have hdoc := Exposition.escapeDoc_of_plain (List.all_eq_true.mp hplain)
    simp [Line.text, Line.entry, Exposition.Entry.text, Exposition.helpMark, hdoc]
  | type name metricType => simp [Line.text, Line.entry, Exposition.Entry.text, Exposition.typeMark]
  | sample name labels value =>
    obtain ⟨-, hlabels⟩ := Bool.and_eq_true_iff.mp h
    have htext := Line.labelText_toList (List.all_eq_true.mp hlabels)
    simp [Line.text, Line.entry, Exposition.Entry.text, htext]
  | blank => rfl

theorem Render.text_toList {r : Render} (h : ∀ line ∈ r.out, line.readable = true) :
    r.text.toList = Exposition.text (r.out.map Line.entry) := by
  rw [Render.text, String.toList_join, Exposition.text, List.flatMap_map, List.flatMap_map]
  exact List.flatMap_congr fun line hline => Line.text_toList (h line hline)

/-! ## The lines of a scrape -/

/-- The lines that an operation will print, without their values. -/
def RenderOp.shapes (op : RenderOp) : List Line := (op.lines {} 0).map Line.shape

/-- All lines of the scrape, without their values. -/
def Render.shapes (r : Render) : List Line := r.out.map Line.shape ++ r.rest.flatMap RenderOp.shapes

/-- The lines that every scrape prints. -/
def scrapeShapes : List Line := ({} : Render).shapes

theorem shapes_lines (op : RenderOp) (m : Metrics) (count : UInt64) :
    (op.lines m count).map Line.shape = op.shapes := by
  cases op with
  | writeBuckets =>
    rw [RenderOp.shapes, RenderOp.lines, RenderOp.lines, bucketLines, bucketLines, List.map_ofFn, List.map_ofFn]
    rfl
  | _ => rfl

theorem Render.shapes_step {m : Metrics} {locked : Bool} {r : Render} {p : Bool × Render}
    (h : r.step m locked = some p) : p.2.shapes = r.shapes := by
  unfold Render.step at h
  split at h
  case h_1 => cases h
  case h_5 hrest =>
    cases h
    simp only [Render.shapes, hrest, List.map_append, shapes_lines, List.flatMap_cons, List.append_assoc]
  -- Neither the load of the count nor the lock prints anything.
  all_goals
    rename_i rest hrest
    cases h
    simp [Render.shapes, hrest, RenderOp.shapes, RenderOp.lines]

theorem shapes_of_reachable {reports : List Report} {s : Scrape} (h : (scraping reports).Reachable s) :
    s.render.shapes = scrapeShapes := by
  refine h.invariant (I := fun s => s.render.shapes = scrapeShapes) ?_ ?_
  · rintro s ⟨-, -, hrender⟩
    rw [hrender, scrapeShapes]
  · intro s a t _ hinv _ hstep
    rw [← hinv]
    cases a with
    | handler i =>
      simp only [scraping] at hstep
      split_ifs at hstep
      obtain ⟨registry, -, rfl⟩ := Option.map_eq_some_iff.mp hstep
      rfl
    | render =>
      obtain ⟨p, hp, rfl⟩ := Option.map_eq_some_iff.mp hstep
      exact Render.shapes_step hp

theorem readable_scrapeShapes : ∀ line ∈ scrapeShapes, line.readable = true := by decide +kernel

theorem nodup_series_scrapeShapes : (scrapeShapes.filterMap Line.series).Nodup := by decide +kernel

/-- Whatever is recorded in the meantime, the text of a scrape reads as the lines that it printed, these are
the lines of every scrape but for their values, and no series occurs twice. -/
theorem scrape_reads_back (reports : List Report) {s : Scrape} (hs : (scraping reports).Reachable s)
    (hdone : s.render.rest = []) :
    Exposition.read s.render.text.toList = some (s.render.out.map Line.entry) ∧
      s.render.out.map Line.shape = scrapeShapes ∧ (s.render.out.filterMap Line.series).Nodup := by
  have hshapes : s.render.out.map Line.shape = scrapeShapes := by
    rw [← shapes_of_reachable hs, Render.shapes, hdone, List.flatMap_nil, List.append_nil]
  have hreadable : ∀ line ∈ s.render.out, line.readable = true := by
    intro line hline
    rw [← line.readable_shape]
    apply readable_scrapeShapes
    rw [← hshapes]
    exact List.mem_map_of_mem hline
  have hseries : s.render.out.filterMap Line.series = scrapeShapes.filterMap Line.series := by
    rw [← hshapes, List.filterMap_map]
    exact List.filterMap_congr fun line _ => line.series_shape.symm
  refine ⟨?_, hshapes, by rw [hseries]; exact nodup_series_scrapeShapes⟩
  rw [Render.text_toList hreadable]
  apply Exposition.read_text
  intro e he
  obtain ⟨line, hline, rfl⟩ := List.mem_map.mp he
  exact Line.wellNamed_of_readable (hreadable line hline)

/-- A scrape that a handler overtakes exposes the same series. -/
theorem scrape_reads_back_overtaken :
    ∃ s, (scraping [⟨.ok, 1⟩]).Reachable s ∧ s.render.rest = [] ∧ s.registry.shared.okTotal = 1 ∧
      (Exposition.read s.render.text.toList).map List.length = some scrapeShapes.length := by
  have hinit : (scraping [⟨.ok, 1⟩]).Reachable
      ⟨⟨{}, ([⟨.ok, 1⟩].map Report.updates).map fun ops => ⟨[], ops⟩⟩, false, {}⟩ := .init ⟨rfl, rfl, rfl⟩
  obtain ⟨s, hs, hdone, htotal⟩ := hinit.exists_of_run
    (fun s => s.render.rest = [] ∧ s.registry.shared.okTotal = 1) (meanwhile 1) (by decide +kernel)
  obtain ⟨hread, hshapes, -⟩ := scrape_reads_back [⟨.ok, 1⟩] hs hdone
  refine ⟨s, hs, hdone, htotal, ?_⟩
  rw [hread, Option.map_some, List.length_map, ← hshapes, List.length_map]

end InferenceGateway.Gateway
