import Mathlib.Data.Int.Notation
import Mathlib.Data.List.Basic
import Mathlib.Data.List.Nodup
import Mathlib.Data.List.TakeWhile
import Monutchee.System.Data

/-!
# The journal reader (journal_reader.cpp, journal_query.hpp)

`JournalReader::read` over a list model of the system journal, and `detail::bounded_page`,
the version that the unit tests exercise. A handle of sd-journal walks a stream of entries,
all of them or those of the public audience when a match is added; a seek leaves it between
two entries and `next` or `previous` makes the neighbour the current entry. Entries carry the
time of journald in microseconds; time points of a query are nanoseconds.
-/

namespace Monutchee.Logging
open Monutchee.System (Bytes ascii)

inductive Priority where
  | emergency | alert | critical | error | warning | notice | info | debug
  deriving DecidableEq, Repr

def Priority.value : Priority → ℕ
  | .emergency => 0
  | .alert => 1
  | .critical => 2
  | .error => 3
  | .warning => 4
  | .notice => 5
  | .info => 6
  | .debug => 7

/-- `Entry` (`journal_reader.hpp:34-57`), less the fields that no query reads. -/
structure Entry where
  timestamp : ℕ
  cursor : Bytes
  priority : Priority := .info
  message : Bytes := []
  component : Bytes := []
  module : Bytes := []
  event : Bytes := []
  audience : Bytes := ascii "developer"
  category : Bytes := []
  unit : Bytes := []
  deriving DecidableEq, Repr

def Entry.time (e : Entry) : ℤ := 1000 * (e.timestamp : ℤ)

structure Query where
  component : Option Bytes := none
  module : Option Bytes := none
  maximumPriority : Option Priority := none
  since : Option ℤ := none
  after : Option Bytes := none
  components : List Bytes := []
  units : List Bytes := []
  limit : ℕ := 100
  audience : Option Bytes := none
  category : Option Bytes := none
  event : Option Bytes := none
  upTo : Option ℤ := none
  newestFirst : Bool := false
  strictCursor : Bool := false
  deriving DecidableEq, Repr

inductive JournalErrorCode where
  | unavailable | cursorExpired | readFailed
  deriving DecidableEq, Repr

structure JournalError where
  code : JournalErrorCode
  message : Bytes
  deriving DecidableEq, Repr

def cursorExpired : JournalError := ⟨.cursorExpired, ascii "journal cursor is no longer valid"⟩

/-! ### matches_query and bounded_page (journal_reader.cpp:148-194) -/

def listed (values : List Bytes) (value : Bytes) : Bool := values.isEmpty || values.contains value

def same (wanted : Option Bytes) (value : Bytes) : Bool :=
  match wanted with
  | none => true
  | some w => value == w

def notBefore (since : Option ℤ) (time : ℤ) : Bool :=
  match since with
  | none => true
  | some t => t ≤ time

def notAfter (upTo : Option ℤ) (time : ℤ) : Bool :=
  match upTo with
  | none => true
  | some t => time ≤ t

def urgent (maximum : Option Priority) (priority : Priority) : Bool :=
  match maximum with
  | none => true
  | some p => priority.value ≤ p.value

def matchesQuery (q : Query) (e : Entry) : Bool :=
  same q.audience e.audience && same q.category e.category && same q.event e.event &&
    notBefore q.since e.time && notAfter q.upTo e.time &&
    same q.component e.component && same q.module e.module &&
    urgent q.maximumPriority e.priority &&
    if !q.components.isEmpty && !q.units.isEmpty then
      listed q.components e.component || listed q.units e.unit
    else listed q.components e.component && listed q.units e.unit

/-- The cursor of a query that names one; an empty cursor is none. -/
def Query.cursor (q : Query) : Option Bytes := q.after.filter fun c => !c.isEmpty

/-- The loop of bounded_page over the entries in the order of the query. -/
def pageLoop (q : Query) : Bool → List Entry → List Entry → List Entry
  | _, result, [] => result
  | false, result, e :: es => pageLoop q (some e.cursor == q.cursor) result es
  | true, result, e :: es =>
    if !matchesQuery q e then pageLoop q true result es
    else if (result ++ [e]).length = q.limit then result ++ [e]
    else pageLoop q true (result ++ [e]) es

def boundedPage (entries : List Entry) (q : Query) : Except JournalError (List Entry) :=
  if q.limit = 0 then .ok []
  else if q.strictCursor && q.cursor.isSome && entries.all fun e => some e.cursor != q.cursor then
    .error cursorExpired
  else .ok (pageLoop q q.cursor.isNone [] (if q.newestFirst then entries.reverse else entries))

/-! ### sd-journal over a list -/

/-- Between the entries i-1 and i, or at entry i. -/
inductive Position where
  | before (i : ℕ)
  | at (i : ℕ)
  deriving DecidableEq, Repr

structure Handle where
  stream : List Entry
  position : Position
  deriving DecidableEq, Repr

namespace Handle

def nextIndex (h : Handle) : ℕ :=
  match h.position with
  | .before i => i
  | .at i => i + 1

def previousIndex (h : Handle) : ℕ :=
  match h.position with
  | .before i => i
  | .at i => i

/-- sd_journal_next and sd_journal_previous; nothing stands for their result 0. -/
def next (h : Handle) : Option Handle :=
  if h.nextIndex < h.stream.length then some { h with position := .at h.nextIndex } else none

def previous (h : Handle) : Option Handle :=
  if 0 < h.previousIndex then some { h with position := .at (h.previousIndex - 1) } else none

theorem next_of_lt {h : Handle} (hi : h.nextIndex < h.stream.length) :
    h.next = some { h with position := .at h.nextIndex } := if_pos hi

theorem next_of_le {h : Handle} (hi : h.stream.length ≤ h.nextIndex) : h.next = none :=
  if_neg (by omega)

theorem previous_of_pos {h : Handle} (hi : 0 < h.previousIndex) :
    h.previous = some { h with position := .at (h.previousIndex - 1) } := if_pos hi

theorem previous_of_zero {h : Handle} (hi : h.previousIndex = 0) : h.previous = none :=
  if_neg (by omega)

def current (h : Handle) : Option Entry :=
  match h.position with
  | .before _ => none
  | .at i => h.stream[i]?

/-- sd_journal_test_cursor. -/
def test (h : Handle) (c : Bytes) : Bool := h.current.any (·.cursor == c)

end Handle

/-- The journal, and where a cursor that names none of its entries leaves the handle, as the
number of entries before that place; such a seek may also be refused. -/
structure Journal where
  entries : List Entry
  nearest : Bytes → Option ℕ

/-- The native match on the public audience. -/
def stream (q : Query) (entries : List Entry) : List Entry :=
  if q.audience = some (ascii "user") then entries.filter (·.audience == ascii "user") else entries

/-- A handle in front of the first k entries. -/
def Journal.seek (j : Journal) (q : Query) (k : ℕ) : Handle :=
  ⟨stream q j.entries, .before (stream q (j.entries.take k)).length⟩

def Journal.seekTail (j : Journal) (q : Query) : Handle :=
  ⟨stream q j.entries, .before (stream q j.entries).length⟩

def Journal.seekRealtime (j : Journal) (q : Query) (usec : ℕ) : Handle :=
  j.seek q (j.entries.takeWhile fun e => e.timestamp < usec).length

def Journal.seekCursor (j : Journal) (q : Query) (c : Bytes) : Option Handle :=
  if j.entries.any (·.cursor == c) then
    some (j.seek q (j.entries.takeWhile fun e => e.cursor != c).length)
  else (j.nearest c).map (j.seek q)

/-! ### JournalReader::read (journal_reader.cpp:236-299) -/

/-- The reading loops; a stream is at most its length of steps long. -/
def collect (q : Query) (step : Handle → Option Handle) : ℕ → List Entry → Handle → List Entry
  | 0, result, _ => result
  | fuel + 1, result, h =>
    if result.length < q.limit then
      match step h with
      | none => result
      | some h' => collect q step fuel (result ++ h'.current.toList.filter (matchesQuery q)) h'
    else result

def readOn (q : Query) (result : List Entry) (h : Handle) : List Entry :=
  collect q (if q.newestFirst then Handle.previous else Handle.next) (h.stream.length + 1) result h

/-- std::chrono::duration_cast to microseconds, not below zero. -/
def sinceUsec (since : ℤ) : ℕ := (since.tdiv 1000).toNat

/-- The cursor branch, positioned by sd_journal_seek_cursor. -/
def readAfter (q : Query) (c : Bytes) (h : Handle) : Except JournalError (List Entry) :=
  match h.next with
  | none => if q.strictCursor then .error cursorExpired else .ok (readOn q [] h)
  | some h' =>
    if h'.test c then .ok (readOn q [] h')
    else if q.strictCursor then .error cursorExpired
    else
      -- A vacuumed cursor is tolerated at the nearest position.
      .ok (readOn q (if q.newestFirst then [] else h'.current.toList.filter (matchesQuery q)) h')

def read (j : Journal) (q : Query) : Except JournalError (List Entry) :=
  if q.limit = 0 then .ok []
  else
    match q.cursor with
    | some c =>
      match j.seekCursor q c with
      | none => .error cursorExpired
      | some h => readAfter q c h
    | none =>
      if q.newestFirst then .ok (readOn q [] (j.seekTail q))
      else
        match q.since with
        | some t => .ok (readOn q [] (j.seekRealtime q (sinceUsec t)))
        | none =>
          -- A recent page, returned oldest first.
          .ok (collect q Handle.previous (j.entries.length + 1) [] (j.seekTail q)).reverse

/-! ### What the loops collect -/

/-- A bounded page of the matching entries of a list. -/
def page (q : Query) (n : ℕ) (es : List Entry) : List Entry := (es.filter (matchesQuery q)).take n

theorem page_cons (q : Query) (n : ℕ) (e : Entry) (es : List Entry) :
    page q (n + 1) (e :: es) =
      if matchesQuery q e then e :: page q n es else page q (n + 1) es := by
  unfold page
  by_cases hm : matchesQuery q e = true
  · rw [if_pos hm, List.filter_cons_of_pos hm, List.take_succ_cons]
  · rw [if_neg hm, List.filter_cons_of_neg hm]

theorem page_zero (q : Query) (es : List Entry) : page q 0 es = [] := List.take_zero

/-- One more entry read: either it is kept, or the page is still as large as it was. -/
theorem page_read (q : Query) (result : List Entry) (e : Entry) (es : List Entry)
    (h : result.length < q.limit) :
    (result ++ [e].filter (matchesQuery q)) ++
        page q (q.limit - (result ++ [e].filter (matchesQuery q)).length) es =
      result ++ page q (q.limit - result.length) (e :: es) := by
  obtain ⟨n, hn⟩ : ∃ n, q.limit - result.length = n + 1 := ⟨q.limit - result.length - 1, by omega⟩
  by_cases hm : matchesQuery q e = true
  · have hone : [e].filter (matchesQuery q) = [e] := by simp [hm]
    have hrest : q.limit - (result ++ [e]).length = n := by
      rw [List.length_append, List.length_singleton]
      omega
    rw [hone, hrest, hn, page_cons, if_pos hm, List.append_assoc, List.singleton_append]
  · have hone : [e].filter (matchesQuery q) = [] := by simp [hm]
    rw [hone, List.append_nil, hn, page_cons, if_neg hm]

theorem collect_next (q : Query) (fuel : ℕ) (result : List Entry) (h : Handle)
    (hf : h.stream.length - h.nextIndex < fuel) :
    collect q Handle.next fuel result h =
      result ++ page q (q.limit - result.length) (h.stream.drop h.nextIndex) := by
  induction fuel generalizing result h with
  | zero => omega
  | succ fuel ih =>
    unfold collect
    by_cases hl : result.length < q.limit
    · rw [if_pos hl]
      by_cases hi : h.nextIndex < h.stream.length
      · rw [Handle.next_of_lt hi]
        have hcur : ({ h with position := .at h.nextIndex } : Handle).current =
            some (h.stream[h.nextIndex]) := by
          simp [Handle.current, hi]
        dsimp only
        rw [hcur, ih]
        · rw [List.drop_eq_getElem_cons hi]
          exact page_read q result _ _ hl
        · simp only [Handle.nextIndex] at hf hi ⊢
          omega
      · rw [Handle.next_of_le (by omega), List.drop_eq_nil_of_le (by omega)]
        simp [page]
    · rw [if_neg hl]
      have hz : q.limit - result.length = 0 := by omega
      rw [hz, page_zero, List.append_nil]

theorem collect_previous (q : Query) (fuel : ℕ) (result : List Entry) (h : Handle)
    (hf : h.previousIndex < fuel) (hi : h.previousIndex ≤ h.stream.length) :
    collect q Handle.previous fuel result h =
      result ++ page q (q.limit - result.length) (h.stream.take h.previousIndex).reverse := by
  induction fuel generalizing result h with
  | zero => omega
  | succ fuel ih =>
    unfold collect
    by_cases hl : result.length < q.limit
    · rw [if_pos hl]
      by_cases hp : 0 < h.previousIndex
      · rw [Handle.previous_of_pos hp]
        have hlt : h.previousIndex - 1 < h.stream.length := by omega
        have hcur : ({ h with position := .at (h.previousIndex - 1) } : Handle).current =
            some (h.stream[h.previousIndex - 1]) := by
          simp [Handle.current, hlt]
        have htake : h.stream.take h.previousIndex =
            h.stream.take (h.previousIndex - 1) ++ [h.stream[h.previousIndex - 1]] := by
          rw [List.take_append_getElem, Nat.sub_add_cancel hp]
        dsimp only
        rw [hcur, ih, htake, List.reverse_append]
        · exact page_read q result _ _ hl
        · change h.previousIndex - 1 < fuel
          omega
        · change h.previousIndex - 1 ≤ h.stream.length
          omega
      · have hz : h.previousIndex = 0 := by omega
        rw [Handle.previous_of_zero hz, hz]
        simp [page]
    · rw [if_neg hl]
      have hz : q.limit - result.length = 0 := by omega
      rw [hz, page_zero, List.append_nil]

/-! ### The traversed stream -/

/-- The match drops only entries that the query drops too. -/
theorem page_stream (q : Query) (n : ℕ) (es : List Entry) : page q n (stream q es) = page q n es := by
  unfold page stream
  split
  · rename_i hu
    rw [List.filter_filter]
    congr 1
    apply List.filter_congr
    intro e _
    by_cases hm : matchesQuery q e = true
    · have ha : (e.audience == ascii "user") = true := by
        simp only [matchesQuery, hu, same, Bool.and_eq_true] at hm
        exact hm.1.1.1.1.1.1.1.1
      rw [hm, ha]
      rfl
    · simp [hm]
  · rfl

theorem stream_append (q : Query) (es fs : List Entry) :
    stream q (es ++ fs) = stream q es ++ stream q fs := by
  unfold stream
  split
  · exact List.filter_append ..
  · rfl

theorem stream_reverse (q : Query) (es : List Entry) :
    (stream q es).reverse = stream q es.reverse := by
  unfold stream
  split
  · rw [List.filter_reverse]
  · rfl

theorem stream_split (q : Query) (es : List Entry) (k : ℕ) :
    stream q es = stream q (es.take k) ++ stream q (es.drop k) := by
  rw [← stream_append, List.take_append_drop]

theorem stream_drop (q : Query) (es : List Entry) (k : ℕ) :
    (stream q es).drop (stream q (es.take k)).length = stream q (es.drop k) := by
  rw [stream_split q es k, List.drop_left]

/-! ### Where each form of read starts -/

variable {q : Query} {j : Journal}

theorem readOn_forward (hn : q.newestFirst = false) (result : List Entry) (h : Handle) :
    readOn q result h = result ++ page q (q.limit - result.length) (h.stream.drop h.nextIndex) := by
  unfold readOn
  rw [if_neg (by simp [hn])]
  exact collect_next q _ result h (by omega)

theorem readOn_backward (hn : q.newestFirst = true) (result : List Entry) (h : Handle)
    (hi : h.previousIndex ≤ h.stream.length) :
    readOn q result h =
      result ++ page q (q.limit - result.length) (h.stream.take h.previousIndex).reverse := by
  unfold readOn
  rw [if_pos hn]
  exact collect_previous q _ result h (by omega) hi

/-- Reading on from a place between two entries. -/
theorem read_seek (hn : q.newestFirst = false) (k : ℕ) :
    readOn q [] (j.seek q k) = page q q.limit (j.entries.drop k) := by
  rw [readOn_forward hn, ← page_stream q q.limit (j.entries.drop k), ← stream_drop q j.entries k]
  rfl

theorem read_tail (hn : q.newestFirst = true) :
    readOn q [] (j.seekTail q) = page q q.limit j.entries.reverse := by
  have htake : (j.seekTail q).stream.take (j.seekTail q).previousIndex = stream q j.entries :=
    List.take_length
  rw [readOn_backward hn [] _ (Nat.le_refl _), htake, stream_reverse, page_stream]
  rfl

/-- The recent page of a read with neither a cursor nor a start time. -/
theorem read_recent :
    (collect q Handle.previous (j.entries.length + 1) [] (j.seekTail q)).reverse =
      (page q q.limit j.entries.reverse).reverse := by
  have hlen : (stream q j.entries).length ≤ j.entries.length := by
    unfold stream
    split
    · exact List.length_filter_le ..
    · exact Nat.le_refl _
  have htake : (j.seekTail q).stream.take (j.seekTail q).previousIndex = stream q j.entries :=
    List.take_length
  have hindex : (j.seekTail q).previousIndex = (stream q j.entries).length := rfl
  rw [collect_previous q _ [] _ (by rw [hindex]; omega) (Nat.le_refl _), htake, stream_reverse,
    page_stream]
  rfl

/-- What comes before a start time does not match. -/
theorem page_since {t : ℤ} (hs : q.since = some t) (n : ℕ) (es : List Entry) :
    page q n (es.drop (es.takeWhile fun e => e.timestamp < sinceUsec t).length) = page q n es := by
  have hold : ∀ e ∈ es.takeWhile fun e => e.timestamp < sinceUsec t, matchesQuery q e = false := by
    intro e he
    have hlt : e.timestamp < sinceUsec t := by
      have := List.mem_takeWhile_imp he
      simpa using this
    have htime : e.time < t := by
      unfold sinceUsec at hlt
      unfold Entry.time
      have hpos : 0 ≤ t := by
        by_contra hneg
        have hdiv := Int.neg_tdiv (-t) 1000
        have hquot : 0 ≤ (-t).tdiv 1000 := Int.tdiv_nonneg (by omega) (by omega)
        rw [Int.neg_neg] at hdiv
        omega
      rw [Int.tdiv_eq_ediv_of_nonneg hpos] at hlt
      omega
    have hsince : notBefore q.since e.time = false := by
      rw [hs]
      exact decide_eq_false (by omega)
    simp [matchesQuery, hsince]
  have hsplit := List.takeWhile_append_dropWhile (p := fun e => e.timestamp < sinceUsec t) (l := es)
  have hnil := List.filter_eq_nil_iff.mpr (by simpa using hold)
  unfold page
  conv_rhs => rw [← hsplit]
  rw [List.filter_append, hnil, List.nil_append]
  nth_rewrite 2 [← hsplit]
  rw [List.drop_left]

/-! ### Reading on from a cursor -/

/-- The entry that a cursor names, with what comes before and after it. -/
theorem split_cursor {es : List Entry} {c : Bytes} (h : ∃ e ∈ es, e.cursor = c) :
    ∃ pre e post, es = pre ++ e :: post ∧ e.cursor = c ∧ ∀ x ∈ pre, x.cursor ≠ c := by
  induction es with
  | nil => simp at h
  | cons x xs ih =>
    by_cases hx : x.cursor = c
    · exact ⟨[], x, xs, rfl, hx, by simp⟩
    · obtain ⟨e, he, hc⟩ := h
      have hmem : e ∈ xs := by
        rcases List.mem_cons.mp he with rfl | he
        · exact absurd hc hx
        · exact he
      obtain ⟨pre, y, post, rfl, hy, hpre⟩ := ih ⟨e, hmem, hc⟩
      refine ⟨x :: pre, y, post, rfl, hy, ?_⟩
      intro z hz
      rcases List.mem_cons.mp hz with rfl | hz
      · exact hx
      · exact hpre z hz

theorem takeWhile_cursor {pre post : List Entry} {e : Entry} {c : Bytes} (he : e.cursor = c)
    (hpre : ∀ x ∈ pre, x.cursor ≠ c) : (pre ++ e :: post).takeWhile (fun x => x.cursor != c) = pre := by
  rw [List.takeWhile_append_of_pos (by simpa using hpre), List.takeWhile_cons_of_neg (by simp [he]),
    List.append_nil]

/-- An entry of the stream is the first after the entries before it. -/
theorem stream_head {pre post : List Entry} {e : Entry} (he : e ∈ stream q [e]) :
    stream q (pre ++ e :: post) = stream q pre ++ e :: stream q post := by
  have hone : stream q [e] = [e] := by
    unfold stream at he ⊢
    split at he
    · rw [List.mem_filter] at he
      rw [if_pos (by assumption)]
      simp [he.2]
    · rw [if_neg (by assumption)]
  rw [stream_append, ← List.singleton_append, stream_append q [e] post, hone]
  rfl

theorem mem_stream {es : List Entry} {e : Entry} (h : e ∈ stream q es) : e ∈ es ∧ e ∈ stream q [e] := by
  unfold stream at *
  split at h
  · rw [List.mem_filter] at h
    refine ⟨h.1, ?_⟩
    rw [if_pos (by assumption), List.mem_filter]
    exact ⟨List.mem_singleton_self e, h.2⟩
  · refine ⟨h, ?_⟩
    rw [if_neg (by assumption)]
    exact List.mem_singleton_self e

/-- The seek stops in front of the entry with the cursor. -/
theorem seekCursor_found {pre post : List Entry} {e : Entry} {c : Bytes} (hj : j.entries = pre ++ e :: post)
    (hc : e.cursor = c) (hpre : ∀ x ∈ pre, x.cursor ≠ c) : j.seekCursor q c = some (j.seek q pre.length) := by
  have hany : (j.entries.any fun x => x.cursor == c) = true := by
    rw [List.any_eq_true]
    exact ⟨e, by rw [hj]; exact List.mem_append_right _ (List.mem_cons_self ..), by simp [hc]⟩
  unfold Journal.seekCursor
  rw [if_pos hany, hj, takeWhile_cursor hc hpre]

theorem seekCursor_absent {c : Bytes} (habsent : ∀ e ∈ j.entries, e.cursor ≠ c) :
    j.seekCursor q c = (j.nearest c).map (j.seek q) := by
  have hany : (j.entries.any fun x => x.cursor == c) = false := by
    rw [List.any_eq_false]
    intro e he
    simpa using habsent e he
  unfold Journal.seekCursor
  rw [hany, if_neg (by simp)]

theorem read_cursor {c : Bytes} {h : Handle} (hl : q.limit ≠ 0) (hq : q.cursor = some c)
    (hseek : j.seekCursor q c = some h) : read j q = readAfter q c h := by
  unfold read
  rw [if_neg hl, hq]
  dsimp only
  rw [hseek]

theorem read_refused {c : Bytes} (hl : q.limit ≠ 0) (hq : q.cursor = some c) (hseek : j.seekCursor q c = none) :
    read j q = .error cursorExpired := by
  unfold read
  rw [if_neg hl, hq]
  dsimp only
  rw [hseek]

/-- A read after a cursor of the stream continues on its far side. -/
theorem read_after {pre post : List Entry} {e : Entry} {c : Bytes} (hj : j.entries = pre ++ e :: post)
    (hc : e.cursor = c) (hpre : ∀ x ∈ pre, x.cursor ≠ c) (he : e ∈ stream q [e])
    (hq : q.cursor = some c) :
    read j q = .ok (if q.limit = 0 then []
      else page q q.limit (if q.newestFirst then pre.reverse else post)) := by
  by_cases hl : q.limit = 0
  · unfold read
    rw [if_pos hl, if_pos hl]
  have hseek : j.seek q pre.length = ⟨stream q pre ++ e :: stream q post, .before (stream q pre).length⟩ := by
    unfold Journal.seek
    rw [hj, List.take_left, stream_head he]
  rw [if_neg hl, read_cursor hl hq (seekCursor_found hj hc hpre), hseek]
  unfold readAfter
  rw [Handle.next_of_lt (by simp [Handle.nextIndex])]
  dsimp only [Handle.nextIndex]
  have htest : (⟨stream q pre ++ e :: stream q post, .at (stream q pre).length⟩ : Handle).test c =
      true := by
    simp [Handle.test, Handle.current, hc]
  rw [if_pos htest]
  cases hn : q.newestFirst with
  | false =>
    rw [readOn_forward hn]
    have hdrop : (stream q pre ++ e :: stream q post).drop ((stream q pre).length + 1) =
        stream q post := by
      rw [← List.singleton_append, ← List.append_assoc]
      exact List.drop_left' (by simp)
    simp only [Handle.nextIndex, hdrop, List.nil_append, page_stream]
    rfl
  | true =>
    rw [readOn_backward hn [] _ (by simp [Handle.previousIndex])]
    simp only [Handle.previousIndex, List.take_left, stream_reverse, page_stream, List.nil_append]
    rfl

/-! ### bounded_page -/

theorem pageLoop_true (result : List Entry) (es : List Entry) (hl : result.length < q.limit) :
    pageLoop q true result es = result ++ page q (q.limit - result.length) es := by
  induction es generalizing result with
  | nil => simp [pageLoop, page]
  | cons e es ih =>
    obtain ⟨n, hn⟩ : ∃ n, q.limit - result.length = n + 1 := ⟨q.limit - result.length - 1, by omega⟩
    unfold pageLoop
    rw [hn, page_cons]
    by_cases hm : matchesQuery q e = true
    · rw [hm]
      have hlen : (result ++ [e]).length = result.length + 1 := by simp
      by_cases hfull : (result ++ [e]).length = q.limit
      · have hz : n = 0 := by omega
        rw [if_neg (by simp), if_pos hfull, hz, page_zero]
        rfl
      · have hrest : q.limit - (result ++ [e]).length = n := by omega
        rw [if_neg (by simp), if_neg hfull, ih (result ++ [e]) (by omega), hrest]
        simp
    · rw [if_pos (by simp [hm]), ih result hl, hn]
      simp [hm]

theorem pageLoop_cursor {pre post : List Entry} {e : Entry} {c : Bytes} (hq : q.cursor = some c)
    (hc : e.cursor = c) (hpre : ∀ x ∈ pre, x.cursor ≠ c) :
    pageLoop q false [] (pre ++ e :: post) = pageLoop q true [] post := by
  induction pre with
  | nil => simp [pageLoop, hq, hc]
  | cons x xs ih =>
    have hx : (some x.cursor == q.cursor) = false := by
      have := hpre x (List.mem_cons_self ..)
      simpa [hq] using this
    rw [List.cons_append, pageLoop, hx]
    exact ih fun y hy => hpre y (List.mem_cons_of_mem _ hy)

theorem boundedPage_start (hq : q.cursor = none) (hl : q.limit ≠ 0) (es : List Entry) :
    boundedPage es q = .ok (page q q.limit (if q.newestFirst then es.reverse else es)) := by
  unfold boundedPage
  rw [if_neg hl, if_neg (by simp [hq]), hq]
  dsimp only [Option.isNone_none]
  rw [pageLoop_true [] _ (by rw [List.length_nil]; omega)]
  rfl

theorem boundedPage_found {c : Bytes} {es : List Entry} (hl : q.limit ≠ 0) (hq : q.cursor = some c)
    (h : ∃ e ∈ es, e.cursor = c) :
    boundedPage es q = .ok (pageLoop q false [] (if q.newestFirst then es.reverse else es)) := by
  obtain ⟨e, he, hc⟩ := h
  have hall : (es.all fun x => some x.cursor != q.cursor) = false := by
    rw [List.all_eq_false]
    exact ⟨e, he, by simp [hq, hc]⟩
  have hcond : ¬ (q.strictCursor && q.cursor.isSome && es.all fun x => some x.cursor != q.cursor) =
      true := by
    simp [hall]
  unfold boundedPage
  rw [if_neg hl, if_neg hcond, hq]
  rfl

/-- A cursor that names no entry expires, wherever the seek left the handle. -/
theorem read_absent {c : Bytes} (hl : q.limit ≠ 0) (hq : q.cursor = some c)
    (habsent : ∀ e ∈ j.entries, e.cursor ≠ c) (hstrict : q.strictCursor = true) :
    read j q = .error cursorExpired := by
  have hseek := seekCursor_absent (q := q) habsent
  cases hk : j.nearest c with
  | none =>
    rw [hk] at hseek
    exact read_refused hl hq hseek
  | some k =>
    rw [hk] at hseek
    rw [read_cursor hl hq hseek]
    have htest : ∀ i, (⟨stream q j.entries, .at i⟩ : Handle).test c = false := by
      intro i
      unfold Handle.test Handle.current
      dsimp only
      cases hget : (stream q j.entries)[i]? with
      | none => rfl
      | some e =>
        have hmem := (mem_stream (List.mem_of_getElem? hget)).1
        simpa using habsent e hmem
    unfold readAfter
    split
    · rw [if_pos hstrict]
    · rename_i h' hnext
      have hh : ∃ i, h' = ⟨stream q j.entries, .at i⟩ := by
        unfold Handle.next at hnext
        split at hnext
        · injection hnext with hnext
          exact ⟨_, hnext.symm⟩
        · simp at hnext
      obtain ⟨i, rfl⟩ := hh
      rw [htest i, if_neg (by simp), if_pos hstrict]

/-- The journal reader agrees with the page function of its tests, entry for entry and error
for error, wherever both are meant to start at the same place. -/
theorem read_eq_boundedPage (j : Journal) (q : Query)
    (hdistinct : (j.entries.map (·.cursor)).Nodup)
    (hform : q.newestFirst = true ∨ q.since.isSome ∨ q.cursor.isSome)
    (hcursor : ∀ c, q.cursor = some c → (∃ e ∈ stream q j.entries, e.cursor = c) ∨
      ((∀ e ∈ j.entries, e.cursor ≠ c) ∧ q.strictCursor = true)) :
    read j q = boundedPage j.entries q := by
  by_cases hl : q.limit = 0
  · unfold read boundedPage
    rw [if_pos hl, if_pos hl]
  cases hq : q.cursor with
  | none =>
    rw [boundedPage_start hq hl]
    unfold read
    rw [if_neg hl, hq]
    dsimp only
    cases hn : q.newestFirst with
    | true =>
      rw [if_pos rfl, if_pos rfl, read_tail hn]
    | false =>
      obtain ⟨t, ht⟩ : ∃ t, q.since = some t := by
        rcases hform with h | h | h
        · rw [hn] at h
          simp at h
        · exact Option.isSome_iff_exists.mp h
        · rw [hq] at h
          simp at h
      rw [if_neg (by simp), if_neg (by simp), ht]
      dsimp only
      unfold Journal.seekRealtime
      rw [read_seek hn, page_since ht]
  | some c =>
    rcases hcursor c hq with ⟨e, he, hc⟩ | ⟨habsent, hstrict⟩
    · obtain ⟨hmem, hone⟩ := mem_stream he
      obtain ⟨pre, e', post, hj, hc', hpre⟩ := split_cursor ⟨e, hmem, hc⟩
      -- The cursors are distinct, so this is the entry of the stream.
      have heq : e' = e := by
        apply List.inj_on_of_nodup_map hdistinct (by rw [hj]; simp) hmem
        rw [hc', hc]
      subst heq
      have hpost : ∀ x ∈ post.reverse, x.cursor ≠ c := by
        intro x hx hxc
        rw [hj, List.map_append, List.map_cons, List.nodup_append] at hdistinct
        have := (List.nodup_cons.mp hdistinct.2.1).1
        exact this (List.mem_map.mpr ⟨x, List.mem_reverse.mp hx, by rw [hxc, hc']⟩)
      rw [read_after hj hc' hpre hone hq, if_neg hl, boundedPage_found hl hq ⟨e', hmem, hc'⟩, hj]
      have hstart : ([] : List Entry).length < q.limit := by
        rw [List.length_nil]
        omega
      cases hn : q.newestFirst with
      | true =>
        simp only [↓reduceIte, List.reverse_append, List.reverse_cons, List.append_assoc,
          List.singleton_append]
        rw [pageLoop_cursor hq hc' hpost, pageLoop_true [] _ hstart]
        rfl
      | false =>
        simp only [Bool.false_eq_true, ↓reduceIte]
        rw [pageLoop_cursor hq hc' hpre, pageLoop_true [] _ hstart]
        rfl
    · rw [read_absent hl hq habsent hstrict]
      unfold boundedPage
      have hall : (j.entries.all fun x => some x.cursor != q.cursor) = true := by
        rw [List.all_eq_true]
        intro e he
        simpa [hq] using habsent e he
      rw [if_neg hl, hall, hstrict, hq]
      rfl

namespace Fixture

/-- Three public entries and a private one. -/
def entries : List Entry :=
  [{ timestamp := 10, cursor := ascii "1", audience := ascii "user" },
   { timestamp := 10, cursor := ascii "2" },
   { timestamp := 11, cursor := ascii "3", audience := ascii "user" },
   { timestamp := 12, cursor := ascii "4", audience := ascii "user" }]

/-- The next older page of the public stream. -/
def older : Query :=
  { audience := some (ascii "user"), after := some (ascii "3"), newestFirst := true
    strictCursor := true, limit := 5 }

end Fixture

theorem read_eq_boundedPage_older :
    read ⟨Fixture.entries, fun _ => none⟩ Fixture.older = boundedPage Fixture.entries Fixture.older ∧
      boundedPage Fixture.entries Fixture.older = .ok (Fixture.entries.take 1) := by
  refine ⟨read_eq_boundedPage _ _ (by decide) (.inl rfl) ?_, by decide⟩
  intro c hc
  have hcursor : Fixture.older.cursor = some (ascii "3") := by decide
  rw [hcursor] at hc
  injection hc with hc
  subst hc
  exact .inl (by decide)

end Monutchee.Logging
