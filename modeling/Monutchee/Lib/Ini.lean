import Mathlib.Data.List.DropRight

/-!
# Files of sections and assignments

A text of lines, each a section header, an assignment, a comment or blank. The reader drops
white space around a line, a key and a value. A document whose lines are plain is read back as
written, so nothing in a value can add a line, a section or a key.
-/

namespace Monutchee.Lib.Ini

abbrev Text := List UInt8

/-! ### The reader -/

def isSpace (c : UInt8) : Bool := c == 32 || c == 13 || c == 10 || c == 9

def strip (t : Text) : Text := (t.dropWhile isSpace).rdropWhile isSpace

/-- The lines of a text, each without its end; the last need not have one. -/
def lines : Text → List Text
  | [] => []
  | c :: cs =>
    if c = 10 then [] :: lines cs
    else
      match lines cs with
      | [] => [[c]]
      | l :: ls => (c :: l) :: ls

inductive Line where
  | blank
  | comment (text : Text)
  | header (name : Text)
  | entry (key value : Text)
  deriving DecidableEq, Repr

def classify (t : Text) : Line :=
  if t = [] then .blank
  else if t.head? = some 35 ∨ t.head? = some 59 then .comment t.tail
  else if t.head? = some 91 ∧ t.getLast? = some 93 then .header t.tail.dropLast
  else
    match t.dropWhile (· != 61) with
    | [] => .comment t
    | _ :: value => .entry (strip (t.takeWhile (· != 61))) (strip value)

def readLine (t : Text) : Line := classify (strip t)

structure Item where
  group : Text
  key : Text
  value : Text
  deriving DecidableEq, Repr

/-- The assignments, each in the section that was opened last. -/
def items : Text → List Line → List Item
  | _, [] => []
  | _, .header name :: ls => items name ls
  | s, .entry key value :: ls => ⟨s, key, value⟩ :: items s ls
  | s, _ :: ls => items s ls

/-- The section that a list of lines leaves open. -/
def openSection : Text → List Line → Text
  | s, [] => s
  | _, .header name :: ls => openSection name ls
  | s, .blank :: ls => openSection s ls
  | s, .comment _ :: ls => openSection s ls
  | s, .entry _ _ :: ls => openSection s ls

theorem items_append (s : Text) (a b : List Line) :
    items s (a ++ b) = items s a ++ items (openSection s a) b := by
  induction a generalizing s with
  | nil => rfl
  | cons l a ih =>
    cases l with
    | blank => exact ih s
    | comment t => exact ih s
    | header name => exact ih name
    | entry key value =>
      show (⟨s, key, value⟩ : Item) :: items s (a ++ b) = _
      rw [ih]
      rfl

def parse (t : Text) : List Item := items [] ((lines t).map readLine)

/-- The values of a key in a section, in order. -/
def values (s key : Text) (is : List Item) : List Text :=
  (is.filter fun i => i.group == s && i.key == key).map (·.value)

@[simp] theorem values_nil (s key : Text) : values s key [] = [] := rfl

@[simp] theorem values_cons (s key : Text) (i : Item) (is : List Item) :
    values s key (i :: is) =
      if i.group = s ∧ i.key = key then i.value :: values s key is else values s key is := by
  by_cases h : i.group = s ∧ i.key = key
  · simp [values, h]
  · have hf : (i.group == s && i.key == key) = false := by
      rw [Bool.eq_false_iff, ne_eq, Bool.and_eq_true, beq_iff_eq, beq_iff_eq]
      exact h
    rw [if_neg h, values, List.filter_cons_of_neg (by simp [hf])]
    rfl

@[simp] theorem values_append (s key : Text) (is js : List Item) :
    values s key (is ++ js) = values s key is ++ values s key js := by
  simp [values]

/-! ### The writer -/

namespace Line

def text : Line → Text
  | blank => []
  | comment t => 35 :: t
  | header name => 91 :: name ++ [93]
  | entry key value => key ++ 61 :: value

/-- A line as the reader gives it back: white space at its end is lost. -/
def stripped : Line → Line
  | comment t => comment (t.rdropWhile isSpace)
  | entry key value => entry key (value.rdropWhile isSpace)
  | l => l

structure PlainKey (key : Text) : Prop where
  nonempty : key ≠ []
  bytes : ∀ c ∈ key, c ≠ 61 ∧ isSpace c = false
  head : ∀ c, key.head? = some c → c ≠ 35 ∧ c ≠ 59 ∧ c ≠ 91

theorem PlainKey.of {key : Text} (h : key ≠ [] ∧ (∀ c ∈ key, c ≠ 61 ∧ isSpace c = false) ∧
    key.head?.all (fun c => c != 35 && c != 59 && c != 91) = true) : PlainKey key := by
  obtain ⟨hne, hbytes, hhead⟩ := h
  refine ⟨hne, hbytes, ?_⟩
  intro c hc
  rw [hc] at hhead
  simpa [Bool.and_eq_true, and_assoc] using hhead

structure PlainValue (value : Text) : Prop where
  noBreak : 10 ∉ value
  head : ∀ c, value.head? = some c → isSpace c = false

/-- Lines that the reader takes for what they are. -/
def Plain : Line → Prop
  | blank => True
  | comment t => 10 ∉ t
  | header name => 10 ∉ name
  | entry key value => PlainKey key ∧ PlainValue value

end Line

def render (doc : List Line) : Text := doc.flatMap fun l => l.text ++ [10]

/-! ### What was written is read -/

theorem lines_append {l : Text} (h : 10 ∉ l) (rest : Text) : lines (l ++ 10 :: rest) = l :: lines rest := by
  induction l with
  | nil => simp [lines]
  | cons c cs ih =>
    have hc : c ≠ 10 := fun he => h (by rw [he]; exact List.mem_cons_self ..)
    have hcs := ih fun hm => h (List.mem_cons_of_mem _ hm)
    rw [List.cons_append, lines, if_neg hc, hcs]

theorem rdropWhile_append {p : UInt8 → Bool} {c : UInt8} (hc : p c = false) (t u : Text) :
    (t ++ c :: u).rdropWhile p = t ++ c :: u.rdropWhile p := by
  induction u using List.reverseRecOn with
  | nil =>
    rw [List.rdropWhile_concat_neg p t c (by simp [hc])]
    rfl
  | append_singleton u d ih =>
    have hassoc : t ++ c :: (u ++ [d]) = (t ++ c :: u) ++ [d] := by simp
    rw [hassoc, List.rdropWhile_concat, List.rdropWhile_concat]
    by_cases hd : p d = true
    · rw [if_pos hd, if_pos hd, ih]
    · rw [if_neg hd, if_neg hd]
      simp

/-- A text that begins with no space keeps its beginning. -/
theorem strip_cons {c : UInt8} (hc : isSpace c = false) (t : Text) :
    strip (c :: t) = c :: t.rdropWhile isSpace := by
  have hdrop : (c :: t).dropWhile isSpace = c :: t := List.dropWhile_cons_of_neg (by simp [hc])
  rw [strip, hdrop]
  exact rdropWhile_append hc [] t

theorem strip_eq {t : Text} (h : ∀ c, t.head? = some c → isSpace c = false) :
    strip t = t.rdropWhile isSpace := by
  cases t with
  | nil => rfl
  | cons c t => rw [strip_cons (h c rfl), ← List.nil_append (c :: t), rdropWhile_append (h c rfl)]; rfl

theorem rdropWhile_free {t : Text} (h : ∀ c ∈ t, isSpace c = false) : t.rdropWhile isSpace = t := by
  rw [List.rdropWhile_eq_self_iff]
  intro hne hs
  rw [h _ (List.getLast_mem hne)] at hs
  simp at hs

theorem strip_free {t : Text} (h : ∀ c ∈ t, isSpace c = false) : strip t = t := by
  rw [strip_eq fun c hc => h c (List.mem_of_mem_head? hc), rdropWhile_free h]

theorem rdropWhile_head {t : Text} {c : UInt8} (h : (t.rdropWhile isSpace).head? = some c) :
    t.head? = some c := by
  obtain ⟨rest, hrest⟩ := List.rdropWhile_prefix isSpace (l := t)
  cases hd : t.rdropWhile isSpace with
  | nil =>
    rw [hd] at h
    simp at h
  | cons d ds =>
    rw [hd] at h hrest
    rw [← hrest]
    simpa using h

theorem strip_entry {key : Text} (hk : Line.PlainKey key) (value : Text) :
    strip (key ++ 61 :: value) = key ++ 61 :: value.rdropWhile isSpace := by
  have hequals : isSpace 61 = false := by decide
  rw [strip_eq, rdropWhile_append hequals]
  intro c hc
  rw [List.head?_append_of_ne_nil key hk.nonempty] at hc
  exact (hk.bytes c (List.mem_of_mem_head? hc)).2

theorem readLine_text {l : Line} (h : l.Plain) : readLine l.text = l.stripped := by
  cases l with
  | blank => rfl
  | comment t =>
    rw [readLine, Line.text, strip_cons (by decide)]
    simp [classify, Line.stripped]
  | header name =>
    have hclose : isSpace 93 = false := by decide
    have hend : (name ++ [93]).rdropWhile isSpace = name ++ [93] := rdropWhile_append hclose name []
    have hlast : (91 :: (name ++ [93])).getLast? = some 93 := by
      rw [← List.cons_append, List.getLast?_concat]
    rw [readLine, Line.text, List.cons_append, strip_cons (by decide), hend]
    simp [classify, Line.stripped, hlast]
  | entry key value =>
    obtain ⟨hk, hv⟩ := h
    have hstrip := strip_entry hk value
    have hhead : ∀ v : Text, (key ++ 61 :: v).head? = key.head? := fun v =>
      List.head?_append_of_ne_nil key hk.nonempty
    have hfirst : ∀ c, key.head? = some c → c ≠ 35 ∧ c ≠ 59 ∧ c ≠ 91 := hk.head
    have hne : ∀ c ∈ key, (c != 61) = true := fun c hc => by simpa using (hk.bytes c hc).1
    have htake : ∀ v : Text, (key ++ 61 :: v).takeWhile (· != 61) = key := by
      intro v
      rw [List.takeWhile_append_of_pos hne]
      simp
    have hdrop : ∀ v : Text, (key ++ 61 :: v).dropWhile (· != 61) = 61 :: v := by
      intro v
      rw [List.dropWhile_append_of_pos hne]
      simp
    have hkey : strip key = key := strip_free fun c hc => (hk.bytes c hc).2
    have hval : strip (value.rdropWhile isSpace) = value.rdropWhile isSpace := by
      rw [strip_eq fun c hc => hv.head c (rdropWhile_head hc), List.rdropWhile_idempotent]
    rw [readLine, Line.text, hstrip, classify, if_neg (by simp), hhead, hdrop, htake, hkey]
    have hcomment : ¬ (key.head? = some 35 ∨ key.head? = some 59) := by
      rintro (he | he)
      · exact (hfirst _ he).1 rfl
      · exact (hfirst _ he).2.1 rfl
    rw [if_neg hcomment, if_neg fun he => (hfirst _ he.1).2.2 rfl]
    dsimp only
    rw [hval]
    rfl

theorem Line.Plain.noBreak {l : Line} (h : l.Plain) : 10 ∉ l.text := by
  cases l with
  | blank => simp [Line.text]
  | comment t => simpa [Line.text, Line.Plain] using h
  | header name => simpa [Line.text, Line.Plain] using h
  | entry key value =>
    obtain ⟨hk, hv⟩ := h
    intro hm
    rcases List.mem_append.mp hm with hm | hm
    · have hs := (hk.bytes 10 hm).2
      revert hs
      decide
    · rcases List.mem_cons.mp hm with hm | hm
      · revert hm
        decide
      · exact hv.noBreak hm

theorem lines_render {doc : List Line} (h : ∀ l ∈ doc, l.Plain) :
    lines (render doc) = doc.map (·.text) := by
  induction doc with
  | nil => rfl
  | cons l doc ih =>
    have hl := (h l (List.mem_cons_self ..)).noBreak
    have hdoc := ih fun x hx => h x (List.mem_cons_of_mem _ hx)
    have hcons : render (l :: doc) = l.text ++ 10 :: render doc := by simp [render]
    rw [hcons, lines_append hl, hdoc]
    rfl

/-- A plain document is read as it was written. -/
theorem parse_render {doc : List Line} (h : ∀ l ∈ doc, l.Plain) :
    parse (render doc) = items [] (doc.map (·.stripped)) := by
  rw [parse, lines_render h, List.map_map]
  congr 1
  apply List.map_congr_left
  intro l hl
  exact readLine_text (h l hl)

/-! ### Lists of words -/

def words (v : Text) : List Text := (v.splitOnP isSpace).filter (· ≠ [])

/-- What the assignments of a list setting leave: each adds its words, and an empty one drops
those before it. -/
def assigned (vs : List Text) : List Text :=
  vs.foldl (fun l v => if v = [] then [] else l ++ words v) []

theorem words_append {c : UInt8} (hc : isSpace c = true) (a b : Text) :
    words (a ++ c :: b) = words a ++ words b := by
  unfold words
  rw [List.splitOnP_append_cons a b hc, List.filter_append]

theorem words_single {w : Text} (hne : w ≠ []) (hw : ∀ c ∈ w, isSpace c = false) : words w = [w] := by
  unfold words
  rw [List.splitOnP_eq_singleton hw, List.filter_cons_of_pos (by simpa using hne)]
  rfl

theorem words_rdropWhile (v : Text) : words (v.rdropWhile isSpace) = words v := by
  induction v using List.reverseRecOn with
  | nil => rfl
  | append_singleton v c ih =>
    by_cases hc : isSpace c = true
    · have hnil : words [] = [] := by decide
      rw [List.rdropWhile_concat_pos _ _ _ hc, ih, words_append hc, hnil, List.append_nil]
    · rw [List.rdropWhile_concat_neg _ _ _ hc]

/-- Words written one after another are read back, although the line loses its last space. -/
theorem words_written {ws : List Text} (h : ∀ w ∈ ws, w ≠ [] ∧ ∀ c ∈ w, isSpace c = false) :
    words ((ws.flatMap (· ++ [32])).rdropWhile isSpace) = ws := by
  rw [words_rdropWhile]
  induction ws with
  | nil => decide
  | cons w ws ih =>
    obtain ⟨hne, hw⟩ := h w (List.mem_cons_self ..)
    have hws := ih fun x hx => h x (List.mem_cons_of_mem _ hx)
    have hspace : isSpace 32 = true := by decide
    rw [List.flatMap_cons, List.append_assoc, List.singleton_append, words_append hspace,
      words_single hne hw, hws]
    rfl

end Monutchee.Lib.Ini
