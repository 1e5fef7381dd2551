import Monutchee.Logging.Reader

/-!
# Following the journal (journal_reader.cpp:301-368)

`JournalReader::follow` reuses `read` with a query that changes: once an entry was delivered
the next read starts after its cursor. Entries arrive between two reads in batches, possibly
empty; a read takes the journal as it stands when the read ends at its tail or at its limit,
so entries that arrive during a read belong to the batch before or after it. Between reads
the loop only waits.
-/

namespace Monutchee.Logging
open Monutchee.System (Bytes ascii)

def Journal.grow (j : Journal) (batch : List Entry) : Journal :=
  { j with entries := j.entries ++ batch }

/-- The journal so far, the continuation query and what the handler has received. -/
structure Follower where
  journal : Journal
  continuation : Query
  delivered : List Entry

namespace Follower

/-- The handler returns true; the next read continues behind this entry. -/
def handle (f : Follower) (e : Entry) : Follower :=
  { f with
    delivered := f.delivered ++ [e]
    continuation := { f.continuation with after := some e.cursor, since := some e.time } }

def poll (f : Follower) : Except JournalError Follower :=
  match read f.journal f.continuation with
  | .ok entries => .ok (entries.foldl handle f)
  | .error e => .error e

def append (f : Follower) (batch : List Entry) : Follower :=
  { f with journal := f.journal.grow batch }

/-- The loop: one read after each batch. -/
def polls : Follower → List (List Entry) → Except JournalError Follower
  | f, [] => .ok f
  | f, batch :: batches =>
    match (f.append batch).poll with
    | .ok f' => polls f' batches
    | .error e => .error e

end Follower

inductive FollowError where
  | invalidArgument (message : Bytes)
  | journal (e : JournalError)
  deriving DecidableEq, Repr

/-- `follow` with a handler that always returns true: the initial read, then the loop. -/
def follow (j : Journal) (q : Query) (batches : List (List Entry)) : Except FollowError Follower :=
  if q.newestFirst then
    .error (.invalidArgument (ascii "journal follow requires oldest-first order"))
  else
    match (Follower.poll ⟨j, q, []⟩) with
    | .error e => .error (.journal e)
    | .ok f =>
      match f.polls batches with
      | .error e => .error (.journal e)
      | .ok f => .ok f

/-! ### Deliveries -/

theorem foldl_handle (f : Follower) (es : List Entry) (e : Entry) :
    (es ++ [e]).foldl Follower.handle f =
      { journal := f.journal
        delivered := f.delivered ++ (es ++ [e])
        continuation := { f.continuation with after := some e.cursor, since := some e.time } } := by
  induction es generalizing f with
  | nil => rfl
  | cons x xs ih =>
    rw [List.cons_append, List.foldl_cons, ih]
    simp [Follower.handle]

/-- A page ends with its last matching entry; what follows is still to be read. -/
theorem page_split (q : Query) (n : ℕ) (es : List Entry) (hn : 1 ≤ n)
    (h : page q n es ≠ []) :
    ∃ mid e post, es = mid ++ e :: post ∧ matchesQuery q e = true ∧
      page q n es = (mid ++ [e]).filter (matchesQuery q) := by
  induction es generalizing n with
  | nil => simp [page] at h
  | cons x xs ih =>
    obtain ⟨k, rfl⟩ : ∃ k, n = k + 1 := ⟨n - 1, by omega⟩
    rw [page_cons] at h ⊢
    by_cases hm : matchesQuery q x = true
    · rw [if_pos hm] at h ⊢
      by_cases hrest : page q k xs = []
      · refine ⟨[], x, xs, rfl, hm, ?_⟩
        rw [hrest]
        simp [hm]
      · have hk : 1 ≤ k := by
          rcases Nat.eq_zero_or_pos k with hz | hk
          · rw [hz, page_zero] at hrest
            simp at hrest
          · exact hk
        obtain ⟨mid, e, post, rfl, he, hp⟩ := ih k hk hrest
        refine ⟨x :: mid, e, post, rfl, he, ?_⟩
        rw [hp, List.cons_append, List.filter_cons_of_pos hm]
    · rw [if_neg hm] at h ⊢
      obtain ⟨mid, e, post, rfl, he, hp⟩ := ih (k + 1) hn h
      refine ⟨x :: mid, e, post, rfl, he, ?_⟩
      rw [hp, List.cons_append, List.filter_cons_of_neg hm]

theorem page_eq_nil {q : Query} {n : ℕ} {es : List Entry} (hn : 1 ≤ n) (h : page q n es = []) :
    es.filter (matchesQuery q) = [] := by
  unfold page at h
  rw [List.take_eq_nil_iff] at h
  rcases h with h | h
  · omega
  · exact h

/-! ### Continuing behind a cursor -/

/-- The query of the reads behind an entry. -/
def behind (q : Query) (e : Entry) : Query := { q with after := some e.cursor, since := some e.time }

/-- Behind a matching entry the start time is passed. -/
theorem matches_behind {q : Query} {e x : Entry} (he : matchesQuery q e = true)
    (hx : e.timestamp ≤ x.timestamp) : matchesQuery (behind q e) x = matchesQuery q x := by
  have htime : e.time ≤ x.time := by
    unfold Entry.time
    omega
  have hsince : notBefore q.since x.time = true := by
    simp only [matchesQuery, Bool.and_eq_true] at he
    have hs := he.1.1.1.1.1.2
    cases ht : q.since with
    | none => rfl
    | some t =>
      rw [ht] at hs
      have hle : t ≤ e.time := of_decide_eq_true hs
      exact decide_eq_true (by omega)
  have hbehind : notBefore (some e.time) x.time = true := decide_eq_true htime
  unfold matchesQuery behind
  dsimp only
  rw [hsince, hbehind]

theorem page_behind {q : Query} {e : Entry} {es : List Entry} (n : ℕ) (he : matchesQuery q e = true)
    (hes : ∀ x ∈ es, e.timestamp ≤ x.timestamp) : page (behind q e) n es = page q n es := by
  unfold page
  congr 1
  exact List.filter_congr fun x hx => matches_behind he (hes x hx)

theorem stream_of_matches {q : Query} {e : Entry} (he : matchesQuery q e = true) :
    e ∈ stream q [e] := by
  unfold stream
  split
  · rename_i hu
    rw [List.mem_filter]
    refine ⟨List.mem_singleton_self e, ?_⟩
    simp only [matchesQuery, hu, same, Bool.and_eq_true] at he
    exact he.1.1.1.1.1.1.1.1
  · exact List.mem_singleton_self e

/-- The journal has distinct, non-empty cursors and never goes back in time. -/
structure Ordered (es : List Entry) : Prop where
  distinct : (es.map (·.cursor)).Nodup
  named : ∀ e ∈ es, e.cursor ≠ []
  sorted : es.Pairwise fun a b => a.timestamp ≤ b.timestamp

theorem Ordered.init {es fs : List Entry} (h : Ordered (es ++ fs)) : Ordered es := by
  refine ⟨?_, ?_, ?_⟩
  · have hd := h.distinct
    rw [List.map_append, List.nodup_append] at hd
    exact hd.1
  · exact fun e he => h.named e (List.mem_append_left _ he)
  · exact (List.pairwise_append.mp h.sorted).1

/-- What was delivered is every matching entry from index `start` up to the entry behind which
the next read continues. -/
structure Tracks (q : Query) (start : ℕ) (f : Follower) : Prop where
  intro ::
  place : ∃ pre e post, f.journal.entries = pre ++ e :: post ∧ start ≤ pre.length ∧
    matchesQuery q e = true ∧ f.continuation = behind q e ∧
    f.delivered = ((pre ++ [e]).drop start).filter (matchesQuery q)

theorem Tracks.append {q : Query} {start : ℕ} {f : Follower} (h : Tracks q start f)
    (batch : List Entry) : Tracks q start (f.append batch) := by
  obtain ⟨pre, e, post, hj, hs, hm, hc, hd⟩ := h.place
  refine ⟨pre, e, post ++ batch, ?_, hs, hm, hc, hd⟩
  unfold Follower.append Journal.grow
  rw [hj]
  simp

/-- A read behind an entry gives the next matching entries. -/
theorem read_behind {q : Query} {j : Journal} {pre post : List Entry} {e : Entry}
    (hn : q.newestFirst = false) (hl : 1 ≤ q.limit) (ho : Ordered j.entries)
    (hj : j.entries = pre ++ e :: post) (hm : matchesQuery q e = true) :
    read j (behind q e) = .ok (page q q.limit post) := by
  have hmem : e ∈ j.entries := by
    rw [hj]
    simp
  have hcursor : (behind q e).cursor = some e.cursor := by
    have hne := ho.named e hmem
    simp [Query.cursor, behind, hne]
  have hdist := ho.distinct
  rw [hj, List.map_append, List.map_cons, List.nodup_append] at hdist
  have hpre : ∀ x ∈ pre, x.cursor ≠ e.cursor := by
    intro x hx
    exact hdist.2.2 x.cursor (List.mem_map_of_mem hx) e.cursor (List.mem_cons_self ..)
  have hpost : ∀ x ∈ post, e.timestamp ≤ x.timestamp := by
    have hsorted := ho.sorted
    rw [hj, List.pairwise_append] at hsorted
    exact (List.pairwise_cons.mp hsorted.2.1).1
  have hstream : e ∈ stream (behind q e) [e] := stream_of_matches (q := q) hm
  rw [read_after hj rfl hpre hstream hcursor]
  have hlimit : (behind q e).limit = q.limit := rfl
  have hnewest : (behind q e).newestFirst = false := hn
  rw [hlimit, hnewest, if_neg (by omega), if_neg (by simp), page_behind _ hm hpost]

theorem Tracks.poll {q : Query} {start : ℕ} {f f' : Follower} (h : Tracks q start f)
    (hn : q.newestFirst = false) (hl : 1 ≤ q.limit) (ho : Ordered f.journal.entries)
    (hp : f.poll = .ok f') : Tracks q start f' ∧ f'.journal = f.journal := by
  obtain ⟨pre, e, post, hj, hs, hm, hc, hd⟩ := h.place
  unfold Follower.poll at hp
  rw [hc, read_behind hn hl ho hj hm] at hp
  injection hp with hp
  by_cases hempty : page q q.limit post = []
  · rw [hempty] at hp
    subst hp
    exact ⟨h, rfl⟩
  · obtain ⟨mid, e', post', hsplit, hm', hpage⟩ := page_split q q.limit post hl hempty
    have hfilter : (mid ++ [e']).filter (matchesQuery q) = mid.filter (matchesQuery q) ++ [e'] := by
      rw [List.filter_append]
      simp [hm']
    rw [hpage, hfilter, foldl_handle] at hp
    subst hp
    refine ⟨⟨pre ++ e :: mid, e', post', ?_, ?_, hm', ?_, ?_⟩, rfl⟩
    · rw [hj, hsplit]
      simp
    · rw [List.length_append]
      omega
    · rw [hc]
      rfl
    · have hassoc : pre ++ e :: mid ++ [e'] = (pre ++ [e]) ++ (mid ++ [e']) := by simp
      have hlen : start ≤ (pre ++ [e]).length := by
        rw [List.length_append]
        omega
      have hdrop : (pre ++ e :: mid ++ [e']).drop start =
          (pre ++ [e]).drop start ++ (mid ++ [e']) := by
        rw [hassoc, List.drop_append_of_le_length hlen]
      rw [hdrop, List.filter_append, hfilter, hd]

theorem Tracks.polls {q : Query} {start : ℕ} {f f' : Follower} {batches : List (List Entry)}
    (h : Tracks q start f) (hn : q.newestFirst = false) (hl : 1 ≤ q.limit)
    (ho : Ordered (f.journal.entries ++ batches.flatten)) (hp : f.polls batches = .ok f') :
    Tracks q start f' ∧ f'.journal.entries = f.journal.entries ++ batches.flatten := by
  induction batches generalizing f with
  | nil =>
    injection hp with hp
    subst hp
    exact ⟨h, by simp⟩
  | cons batch batches ih =>
    unfold Follower.polls at hp
    have hgrown : (f.append batch).journal.entries = f.journal.entries ++ batch := rfl
    rw [List.flatten_cons, ← List.append_assoc, ← hgrown] at ho ⊢
    cases hpoll : (f.append batch).poll with
    | error e =>
      rw [hpoll] at hp
      simp at hp
    | ok f₁ =>
      rw [hpoll] at hp
      obtain ⟨h₁, hj₁⟩ := (h.append batch).poll hn hl ho.init hpoll
      rw [← hj₁] at ho ⊢
      exact ih h₁ ho hp

/-- Once a read behind the last entry finds nothing, nothing is left. -/
theorem Tracks.finished {q : Query} {start : ℕ} {f : Follower} (h : Tracks q start f)
    (hn : q.newestFirst = false) (hl : 1 ≤ q.limit) (ho : Ordered f.journal.entries)
    (hr : read f.journal f.continuation = .ok []) :
    f.delivered = (f.journal.entries.drop start).filter (matchesQuery q) := by
  obtain ⟨pre, e, post, hj, hs, hm, hc, hd⟩ := h.place
  rw [hc, read_behind hn hl ho hj hm] at hr
  injection hr with hr
  have hnone := page_eq_nil hl hr
  have hassoc : pre ++ e :: post = (pre ++ [e]) ++ post := by simp
  have hlen : start ≤ (pre ++ [e]).length := by
    rw [List.length_append]
    omega
  rw [hd, hj, hassoc, List.drop_append_of_le_length hlen, List.filter_append, hnone, List.append_nil]

/-! ### The first entry found -/

/-- The first page that is not empty starts the tracking. -/
theorem Tracks.enter {q : Query} {j : Journal} {es : List Entry} {n start : ℕ}
    (hread : read j q = .ok es) (hes : es = page q n (j.entries.drop start)) (hne : es ≠ [])
    (hn : 1 ≤ n) (hst : start ≤ j.entries.length) :
    ∃ f, Follower.poll ⟨j, q, []⟩ = .ok f ∧ Tracks q start f ∧ f.journal = j := by
  obtain ⟨mid, e, post, hsplit, hm, hpage⟩ := page_split q n _ hn (by rwa [← hes])
  have hfilter : (mid ++ [e]).filter (matchesQuery q) = mid.filter (matchesQuery q) ++ [e] := by
    rw [List.filter_append]
    simp [hm]
  have hlen : (j.entries.take start).length = start := by
    rw [List.length_take]
    omega
  refine ⟨_, by unfold Follower.poll; rw [hread], ⟨j.entries.take start ++ mid, e, post, ?_, ?_, hm, ?_, ?_⟩, ?_⟩
  · rw [hes, hpage, hfilter, foldl_handle]
    dsimp only
    rw [List.append_assoc, ← hsplit, List.take_append_drop]
  · rw [List.length_append]
    omega
  · rw [hes, hpage, hfilter, foldl_handle]
    rfl
  · rw [hes, hpage, hfilter, foldl_handle, ← hfilter, List.append_assoc, List.drop_left' hlen]
    rfl
  · rw [hes, hpage, hfilter, foldl_handle]

/-- A query with a start of its own: how many entries lie before it. -/
def startIndex (j : Journal) (q : Query) : Option ℕ :=
  match q.cursor with
  | some c =>
    if j.entries.any (·.cursor == c) then
      some ((j.entries.takeWhile fun e => e.cursor != c).length + 1)
    else j.nearest c
  | none => if q.since.isSome then some 0 else none

/-- The start of a query: the first entry, the one behind the named entry, or where a cursor without an entry
leaves the handle. -/
theorem startIndex_cases {j : Journal} {q : Query} {k : ℕ} (h : startIndex j q = some k) :
    (q.cursor = none ∧ q.since.isSome = true ∧ k = 0) ∨
      ∃ c, q.cursor = some c ∧
        ((∃ pre e post, j.entries = pre ++ e :: post ∧ e.cursor = c ∧ (∀ x ∈ pre, x.cursor ≠ c) ∧ k = pre.length + 1) ∨
          ((∀ e ∈ j.entries, e.cursor ≠ c) ∧ j.nearest c = some k)) := by
  unfold startIndex at h
  cases hq : q.cursor with
  | none =>
    rw [hq] at h
    dsimp only at h
    split at h
    · rename_i hsome
      injection h with h
      exact .inl ⟨rfl, hsome, h.symm⟩
    · simp at h
  | some c =>
    rw [hq] at h
    dsimp only at h
    refine .inr ⟨c, rfl, ?_⟩
    split at h
    · rename_i hany
      obtain ⟨e, he, hc⟩ := List.any_eq_true.mp hany
      obtain ⟨pre, e, post, hj, hc, hpre⟩ := split_cursor ⟨e, he, by simpa using hc⟩
      rw [hj, takeWhile_cursor hc hpre] at h
      injection h with h
      exact .inl ⟨pre, e, post, hj, hc, hpre, h.symm⟩
    · rename_i hany
      refine .inr ⟨?_, h⟩
      intro e he hc
      exact hany (List.any_eq_true.mpr ⟨e, he, by simp [hc]⟩)

theorem seekCursor_none {j : Journal} {q : Query} {c : Bytes} (hq : q.cursor = some c) (h : startIndex j q = none) :
    j.seekCursor q c = none := by
  unfold startIndex at h
  rw [hq] at h
  dsimp only at h
  unfold Journal.seekCursor
  split at h
  · simp at h
  · rename_i hany
    rw [if_neg hany, h]
    rfl

/-- A handle that was not left at the cursor itself reads from the entry it found. -/
theorem readAfter_miss {q : Query} {j : Journal} {c : Bytes} {i : ℕ} (hn : q.newestFirst = false)
    (hl : 1 ≤ q.limit) (hstrict : q.strictCursor = false)
    (htest : ∀ h, (j.seek q i).next = some h → h.test c = false) :
    readAfter q c (j.seek q i) = .ok (page q q.limit (j.entries.drop i)) := by
  unfold readAfter
  by_cases hi : (j.seek q i).nextIndex < (j.seek q i).stream.length
  · have hnext := Handle.next_of_lt hi
    have hcur : ({ (j.seek q i) with position := .at (j.seek q i).nextIndex } : Handle).current =
        some ((j.seek q i).stream[(j.seek q i).nextIndex]) := by
      simp [Handle.current, hi]
    have hdrop : (j.seek q i).stream.drop (j.seek q i).nextIndex = stream q (j.entries.drop i) :=
      stream_drop q j.entries i
    rw [hnext]
    dsimp only
    rw [htest _ hnext, hcur, hn, hstrict, if_neg (by simp), if_neg (by simp), if_neg (by simp),
      readOn_forward hn]
    have hread := page_read q [] ((j.seek q i).stream[(j.seek q i).nextIndex])
      ((j.seek q i).stream.drop ((j.seek q i).nextIndex + 1)) (by rw [List.length_nil]; omega)
    rw [List.nil_append, ← List.drop_eq_getElem_cons hi, hdrop, page_stream] at hread
    exact congrArg Except.ok hread
  · rw [Handle.next_of_le (by omega), hstrict, if_neg (by simp), read_seek hn]

/-- The cursor of an entry that the match leaves out: the handle stops at the next one. -/
theorem page_unmatched {q : Query} {e : Entry} {es : List Entry} (n : ℕ) (he : e ∉ stream q [e]) :
    page q n (e :: es) = page q n es := by
  have hm : ¬ matchesQuery q e = true := fun hm => he (stream_of_matches hm)
  unfold page
  rw [List.filter_cons_of_neg hm]

theorem seek_test {q : Query} {j : Journal} {c : Bytes} {i : ℕ}
    (h : ∀ e ∈ stream q (j.entries.drop i), e.cursor ≠ c) :
    ∀ h', (j.seek q i).next = some h' → h'.test c = false := by
  intro h' hnext
  unfold Handle.next at hnext
  split at hnext
  · rename_i hi
    injection hnext with hnext
    subst hnext
    have hi' : (stream q (j.entries.take i)).length < (stream q j.entries).length := hi
    have hsplit := List.drop_eq_getElem_cons hi'
    rw [stream_drop] at hsplit
    have hne := h _ (by rw [hsplit]; exact List.mem_cons_self ..)
    unfold Handle.test Handle.current
    simp only [Journal.seek, Handle.nextIndex, List.getElem?_eq_getElem hi', Option.any_some]
    rw [beq_eq_false_iff_ne]
    exact hne
  · simp at hnext

/-- A read from a place behind which no entry has the cursor. -/
theorem read_missed {q : Query} {j : Journal} {c : Bytes} {i : ℕ} {es : List Entry} (hn : q.newestFirst = false)
    (hl : 1 ≤ q.limit) (hq : q.cursor = some c) (hseek : j.seekCursor q c = some (j.seek q i))
    (hrest : ∀ x ∈ stream q (j.entries.drop i), x.cursor ≠ c) (hr : read j q = .ok es) :
    es = page q q.limit (j.entries.drop i) := by
  rw [read_cursor (by omega) hq hseek] at hr
  cases hstrict : q.strictCursor with
  | true =>
    unfold readAfter at hr
    split at hr
    · simp [hstrict] at hr
    · rename_i h' hnext
      simp [hstrict, seek_test hrest h' hnext] at hr
  | false =>
    rw [readAfter_miss hn hl hstrict (seek_test hrest)] at hr
    injection hr with hr
    exact hr.symm

/-- An entry that the match hides is not in the stream. -/
theorem stream_hidden {q : Query} {e : Entry} (h : e ∉ stream q [e]) : stream q [e] = [] := by
  cases hs : stream q [e] with
  | nil => rfl
  | cons x xs =>
    have hx : x ∈ stream q [e] := by
      rw [hs]
      exact List.mem_cons_self ..
    have hxe := List.mem_singleton.mp (mem_stream hx).1
    exact absurd (hxe ▸ hx) h

/-- The match hides the entry of the cursor: the handle stops behind it. -/
theorem read_hidden {q : Query} {j : Journal} {c : Bytes} {pre post : List Entry} {e : Entry} {es : List Entry}
    (hn : q.newestFirst = false) (hl : 1 ≤ q.limit) (hdistinct : (j.entries.map (·.cursor)).Nodup)
    (hq : q.cursor = some c) (hj : j.entries = pre ++ e :: post) (hc : e.cursor = c)
    (hpre : ∀ x ∈ pre, x.cursor ≠ c) (he : e ∉ stream q [e]) (hr : read j q = .ok es) :
    es = page q q.limit post := by
  have hpost : ∀ x ∈ post, x.cursor ≠ c := by
    intro x hx hxc
    rw [hj, List.map_append, List.map_cons, List.nodup_append] at hdistinct
    have hfresh := (List.nodup_cons.mp hdistinct.2.1).1
    exact hfresh (List.mem_map.mpr ⟨x, hx, by rw [hxc, hc]⟩)
  have hdrop : j.entries.drop pre.length = e :: post := by
    rw [hj, List.drop_left]
  have hrest : ∀ x ∈ stream q (j.entries.drop pre.length), x.cursor ≠ c := by
    intro x hx
    rw [hdrop, ← List.singleton_append, stream_append, stream_hidden he, List.nil_append] at hx
    exact hpost x (mem_stream hx).1
  rw [read_missed hn hl hq (seekCursor_found hj hc hpre) hrest hr, hdrop, page_unmatched _ he]

theorem read_since {q : Query} {j : Journal} {es : List Entry} (hn : q.newestFirst = false) (hl : 1 ≤ q.limit)
    (hq : q.cursor = none) (hs : q.since.isSome = true) (hr : read j q = .ok es) :
    es = page q q.limit j.entries := by
  obtain ⟨t, ht⟩ := Option.isSome_iff_exists.mp hs
  unfold read at hr
  rw [if_neg (by omega), hq, hn] at hr
  dsimp only at hr
  rw [if_neg (by simp), ht] at hr
  dsimp only at hr
  unfold Journal.seekRealtime at hr
  rw [read_seek hn, page_since ht] at hr
  injection hr with hr
  exact hr.symm

/-- A read with a start of its own returns the first page from there, if it returns. -/
theorem read_start {q : Query} {j : Journal} {k : ℕ} {es : List Entry} (hn : q.newestFirst = false)
    (hl : 1 ≤ q.limit) (hdistinct : (j.entries.map (·.cursor)).Nodup)
    (hs : startIndex j q = some k) (hr : read j q = .ok es) :
    es = page q q.limit (j.entries.drop k) := by
  obtain ⟨hq, hsince, rfl⟩ | ⟨c, hq, ⟨pre, e, post, hj, hc, hpre, rfl⟩ | ⟨habsent, hnear⟩⟩ := startIndex_cases hs
  · exact read_since hn hl hq hsince hr
  · have hk : j.entries.drop (pre.length + 1) = post := by
      rw [hj, ← List.singleton_append, ← List.append_assoc]
      exact List.drop_left' (by simp)
    rw [hk]
    by_cases hstream : e ∈ stream q [e]
    · rw [read_after hj hc hpre hstream hq, if_neg (by omega), hn, if_neg (by simp)] at hr
      injection hr with hr
      exact hr.symm
    · exact read_hidden hn hl hdistinct hq hj hc hpre hstream hr
  · have hseek : j.seekCursor q c = some (j.seek q k) := by
      rw [seekCursor_absent habsent, hnear]
      rfl
    apply read_missed hn hl hq hseek ?_ hr
    intro x hx
    exact habsent x (List.mem_of_mem_drop (mem_stream hx).1)

/-! ### Waiting for the first entry -/

theorem grow_nil (j : Journal) : j.grow [] = j := by
  unfold Journal.grow
  rw [List.append_nil]

theorem grow_grow (j : Journal) (a b : List Entry) : (j.grow a).grow b = j.grow (a ++ b) := by
  unfold Journal.grow
  rw [List.append_assoc]

/-- An empty page leaves the query as it is. -/
theorem poll_empty {q : Query} {j : Journal} (hr : read j q = .ok []) :
    Follower.poll ⟨j, q, []⟩ = .ok ⟨j, q, []⟩ := by
  unfold Follower.poll
  rw [hr]
  rfl

/-- The place that a cursor denotes lies in the journal as the first read finds it. -/
def Anchored (j : Journal) (q : Query) (arrivals : List Entry) : Prop :=
  ∀ c, q.cursor = some c → (∃ e ∈ j.entries, e.cursor = c) ∨
    ((∀ e ∈ arrivals, e.cursor ≠ c) ∧ ∀ k, j.nearest c = some k → k ≤ j.entries.length)

/-- New entries do not move the start. -/
theorem startIndex_grow {q : Query} {j : Journal} {batch : List Entry}
    (ha : ∀ c, q.cursor = some c → (∃ e ∈ j.entries, e.cursor = c) ∨ ∀ e ∈ batch, e.cursor ≠ c) :
    startIndex (j.grow batch) q = startIndex j q := by
  unfold startIndex Journal.grow
  cases hq : q.cursor with
  | none => rfl
  | some c =>
    dsimp only
    by_cases hany : (j.entries.any fun x => x.cursor == c) = true
    · have hnamed : ∃ e ∈ j.entries, e.cursor = c := by
        obtain ⟨e, he, hc⟩ := List.any_eq_true.mp hany
        exact ⟨e, he, by simpa using hc⟩
      obtain ⟨pre, e, post, hj, hc, hpre⟩ := split_cursor hnamed
      rw [if_pos hany, if_pos (by rw [List.any_append, hany]; rfl), hj, List.append_assoc,
        List.cons_append, takeWhile_cursor hc hpre, takeWhile_cursor hc hpre]
    · have habsent : ∀ e ∈ batch, e.cursor ≠ c := by
        rcases ha c hq with ⟨e, he, hc⟩ | h
        · exact absurd (List.any_eq_true.mpr ⟨e, he, by simp [hc]⟩) hany
        · exact h
      have hbatch : (batch.any fun x => x.cursor == c) = false := by
        rw [List.any_eq_false]
        intro e he
        simpa using habsent e he
      rw [if_neg hany, if_neg (by rw [List.any_append, hbatch, Bool.or_false]; exact hany)]

/-- A cursor that the journal names or that no arrival names stays so. -/
def Settled (j : Journal) (q : Query) (arrivals : List Entry) : Prop :=
  ∀ c, q.cursor = some c → (∃ e ∈ j.entries, e.cursor = c) ∨ ∀ e ∈ arrivals, e.cursor ≠ c

theorem Settled.grow {j : Journal} {q : Query} {a b : List Entry} (h : Settled j q (a ++ b)) :
    Settled (j.grow a) q b := by
  intro c hc
  rcases h c hc with ⟨e, he, hec⟩ | h
  · exact .inl ⟨e, List.mem_append_left _ he, hec⟩
  · exact .inr fun e he => h e (List.mem_append_right _ he)

/-- With a start of its own, the query finds everything from there. -/
theorem polls_start {q : Query} {k : ℕ} (hn : q.newestFirst = false) (hl : 1 ≤ q.limit)
    (batches : List (List Entry)) (j : Journal) (f : Follower)
    (ho : Ordered (j.entries ++ batches.flatten)) (hs : startIndex j q = some k)
    (hk : k ≤ j.entries.length) (ha : Settled j q batches.flatten)
    (hp : Follower.polls ⟨j, q, []⟩ batches = .ok f) :
    f = ⟨j.grow batches.flatten, q, []⟩ ∨
      (Tracks q k f ∧ f.journal.entries = j.entries ++ batches.flatten) := by
  induction batches generalizing j with
  | nil =>
    injection hp with hp
    exact .inl (by rw [← hp, List.flatten_nil, grow_nil])
  | cons batch batches ih =>
    rw [List.flatten_cons] at ha ho ⊢
    rw [← List.append_assoc] at ho ⊢
    have hs' : startIndex (j.grow batch) q = some k := by
      rw [startIndex_grow ?_, hs]
      intro c hc
      rcases ha c hc with h | h
      · exact .inl h
      · exact .inr fun e he => h e (List.mem_append_left _ he)
    have hk' : k ≤ (j.grow batch).entries.length := by
      unfold Journal.grow
      rw [List.length_append]
      omega
    unfold Follower.polls Follower.append at hp
    dsimp only at hp
    cases hr : read (j.grow batch) q with
    | error e =>
      unfold Follower.poll at hp
      rw [hr] at hp
      simp at hp
    | ok es =>
      have hes := read_start hn hl ho.init.distinct hs' hr
      by_cases hempty : es = []
      · rw [hempty] at hr
        rw [poll_empty hr] at hp
        rw [← grow_grow]
        exact ih (j.grow batch) ho hs' hk' ha.grow hp
      · obtain ⟨f₁, hf₁, ht, hj⟩ := Tracks.enter hr hes hempty hl hk'
        rw [hf₁] at hp
        have hj' : f₁.journal.entries = j.entries ++ batch := by
          rw [hj]
          rfl
        rw [← hj'] at ho ⊢
        exact .inr (ht.polls hn hl ho hp)

/-! ### The recent page -/

/-- The recent page is the last part of the matching entries. -/
theorem recent_eq (q : Query) (n : ℕ) (es : List Entry) :
    (page q n es.reverse).reverse =
      (es.filter (matchesQuery q)).drop ((es.filter (matchesQuery q)).length - n) := by
  unfold page
  rw [List.filter_reverse, List.take_reverse, List.reverse_reverse]

theorem read_none {q : Query} {j : Journal} (hn : q.newestFirst = false) (hl : 1 ≤ q.limit)
    (hq : q.cursor = none) (hs : q.since = none) :
    read j q = .ok ((j.entries.filter (matchesQuery q)).drop
      ((j.entries.filter (matchesQuery q)).length - q.limit)) := by
  unfold read
  rw [if_neg (by omega), hq, hn, hs]
  dsimp only
  rw [if_neg (by simp), read_recent, recent_eq]

/-- A part of the matching entries is the matching entries of a part. -/
theorem filter_split (m : Entry → Bool) (es : List Entry) (d : ℕ) :
    ∃ k ≤ es.length, (es.take k).filter m = (es.filter m).take d ∧
      (es.drop k).filter m = (es.filter m).drop d := by
  induction es generalizing d with
  | nil => exact ⟨0, by simp, by simp, by simp⟩
  | cons e es ih =>
    cases d with
    | zero => exact ⟨0, by simp, by simp, by simp⟩
    | succ d =>
      by_cases hm : m e = true
      · obtain ⟨k, hk, ht, hd⟩ := ih d
        refine ⟨k + 1, by simpa using hk, ?_, ?_⟩
        · rw [List.take_succ_cons, List.filter_cons_of_pos hm, List.filter_cons_of_pos hm,
            List.take_succ_cons, ht]
        · rw [List.drop_succ_cons, List.filter_cons_of_pos hm, List.drop_succ_cons, hd]
      · obtain ⟨k, hk, ht, hd⟩ := ih (d + 1)
        refine ⟨k + 1, by simpa using hk, ?_, ?_⟩
        · rw [List.take_succ_cons, List.filter_cons_of_neg hm, List.filter_cons_of_neg hm, ht]
        · rw [List.drop_succ_cons, List.filter_cons_of_neg hm, hd]

/-- Entering by a recent page: it is the matching entries from some index on. -/
theorem Tracks.enter_recent {q : Query} {j : Journal} (hn : q.newestFirst = false) (hl : 1 ≤ q.limit)
    (hq : q.cursor = none) (hs : q.since = none) (hm : j.entries.filter (matchesQuery q) ≠ []) :
    ∃ f start, Follower.poll ⟨j, q, []⟩ = .ok f ∧ Tracks q start f ∧ f.journal = j ∧
      start ≤ j.entries.length ∧
      (j.entries.take start).filter (matchesQuery q) = (j.entries.filter (matchesQuery q)).take
        ((j.entries.filter (matchesQuery q)).length - q.limit) ∧
      read j q = .ok ((j.entries.drop start).filter (matchesQuery q)) := by
  have hread := read_none hn hl hq hs (j := j)
  have hpos : 0 < (j.entries.filter (matchesQuery q)).length := List.length_pos_iff.mpr hm
  generalize hd : (j.entries.filter (matchesQuery q)).length - q.limit = d at hread ⊢
  obtain ⟨start, hst, htake, hdrop⟩ := filter_split (matchesQuery q) j.entries d
  rw [← hdrop] at hread
  have hlen : 1 ≤ ((j.entries.drop start).filter (matchesQuery q)).length := by
    rw [hdrop, List.length_drop]
    omega
  have hpage : (j.entries.drop start).filter (matchesQuery q) =
      page q ((j.entries.drop start).filter (matchesQuery q)).length (j.entries.drop start) := by
    unfold page
    rw [List.take_length]
  obtain ⟨f, hf, ht, hj⟩ := Tracks.enter hread hpage (List.length_pos_iff.mp hlen) hlen hst
  exact ⟨f, start, hf, ht, hj, hst, htake, hread⟩

/-- The first batch that brings a match brings no more than a page of them. -/
def NoBurst (q : Query) (batches : List (List Entry)) : Prop :=
  ∀ before batch rest, batches = before ++ batch :: rest →
    (∀ e ∈ before.flatten, matchesQuery q e = false) → batch.countP (matchesQuery q) ≤ q.limit

theorem filter_grow {q : Query} {j : Journal} (hnone : j.entries.filter (matchesQuery q) = [])
    (batch : List Entry) :
    (j.grow batch).entries.filter (matchesQuery q) = batch.filter (matchesQuery q) := by
  unfold Journal.grow
  rw [List.filter_append, hnone, List.nil_append]

theorem read_none_empty {q : Query} {j : Journal} (hn : q.newestFirst = false) (hl : 1 ≤ q.limit)
    (hq : q.cursor = none) (hs : q.since = none) (hnone : j.entries.filter (matchesQuery q) = []) :
    read j q = .ok [] := by
  rw [read_none hn hl hq hs, hnone, List.drop_nil]

/-- While nothing matches, the query stays as it is. -/
theorem polls_nothing {q : Query} (hn : q.newestFirst = false) (hl : 1 ≤ q.limit)
    (hq : q.cursor = none) (hs : q.since = none) (batches : List (List Entry)) (j : Journal)
    (hnone : j.entries.filter (matchesQuery q) = [])
    (hb : ∀ e ∈ batches.flatten, matchesQuery q e = false) :
    Follower.polls ⟨j, q, []⟩ batches = .ok ⟨j.grow batches.flatten, q, []⟩ := by
  induction batches generalizing j with
  | nil => rw [List.flatten_nil, grow_nil]; rfl
  | cons batch batches ih =>
    rw [List.flatten_cons] at hb
    have hnone' : (j.grow batch).entries.filter (matchesQuery q) = [] := by
      rw [filter_grow hnone, List.filter_eq_nil_iff]
      intro e he
      simp [hb e (List.mem_append_left _ he)]
    unfold Follower.polls Follower.append
    dsimp only
    rw [poll_empty (read_none_empty hn hl hq hs hnone'), List.flatten_cons, ← grow_grow]
    exact ih _ hnone' fun e he => hb e (List.mem_append_right _ he)

theorem polls_cons (f : Follower) (batch : List Entry) (batches : List (List Entry)) :
    f.polls (batch :: batches) =
      match (f.append batch).poll with
      | .ok f' => f'.polls batches
      | .error e => .error e := rfl

theorem polls_append (f : Follower) (as bs : List (List Entry)) :
    f.polls (as ++ bs) =
      match f.polls as with
      | .ok f' => f'.polls bs
      | .error e => .error e := by
  induction as generalizing f with
  | nil => rfl
  | cons a as ih =>
    rw [List.cons_append, polls_cons, polls_cons]
    cases (f.append a).poll with
    | error e => rfl
    | ok f' => exact ih f'

/-- The first batch with a match: the reads before it change nothing, then tracking begins. -/
theorem polls_first {q : Query} {j : Journal} {before rest : List (List Entry)} {batch : List Entry}
    {f : Follower} (hn : q.newestFirst = false) (hl : 1 ≤ q.limit) (hq : q.cursor = none)
    (hs : q.since = none) (hnone : j.entries.filter (matchesQuery q) = [])
    (hb : ∀ e ∈ before.flatten, matchesQuery q e = false)
    (hbatch : batch.filter (matchesQuery q) ≠ [])
    (ho : Ordered (j.entries ++ (before ++ batch :: rest).flatten))
    (hp : Follower.polls ⟨j, q, []⟩ (before ++ batch :: rest) = .ok f) :
    ∃ start, Tracks q start f ∧
      f.journal.entries = j.entries ++ (before ++ batch :: rest).flatten ∧
      start ≤ (j.entries ++ before.flatten ++ batch).length ∧
      ((j.entries ++ before.flatten ++ batch).take start).filter (matchesQuery q) =
        (batch.filter (matchesQuery q)).take (batch.countP (matchesQuery q) - q.limit) := by
  have hnone' : (j.grow before.flatten).entries.filter (matchesQuery q) = [] := by
    rw [filter_grow hnone, List.filter_eq_nil_iff]
    intro e he
    simp [hb e he]
  have hfilter := filter_grow hnone' batch
  rw [polls_append, polls_nothing hn hl hq hs before j hnone hb] at hp
  dsimp only at hp
  unfold Follower.polls Follower.append at hp
  dsimp only at hp
  obtain ⟨f₁, start, hf₁, ht, hj, hst, htake, _⟩ :=
    Tracks.enter_recent (j := (j.grow before.flatten).grow batch) hn hl hq hs
      (by rw [hfilter]; exact hbatch)
  rw [hfilter, ← List.countP_eq_length_filter] at htake
  rw [hf₁] at hp
  have hentries : f₁.journal.entries = j.entries ++ before.flatten ++ batch := by
    rw [hj]
    rfl
  have hflat : j.entries ++ (before ++ batch :: rest).flatten =
      f₁.journal.entries ++ rest.flatten := by
    rw [hentries]
    simp
  rw [hflat] at ho ⊢
  obtain ⟨ht', hj'⟩ := ht.polls hn hl ho hp
  exact ⟨start, ht', hj', hst, htake⟩

/-- Either no batch matches, or one of them is the first that does. -/
theorem first_match (m : Entry → Bool) (batches : List (List Entry)) :
    (∀ e ∈ batches.flatten, m e = false) ∨
      ∃ before batch rest, batches = before ++ batch :: rest ∧
        (∀ e ∈ before.flatten, m e = false) ∧ batch.filter m ≠ [] := by
  induction batches with
  | nil => exact .inl (by simp)
  | cons b bs ih =>
    by_cases hb : b.filter m = []
    · have hnone : ∀ e ∈ b, m e = false := by
        simpa using List.filter_eq_nil_iff.mp hb
      rcases ih with h | ⟨before, batch, rest, rfl, hbefore, hbatch⟩
      · left
        intro e he
        rw [List.flatten_cons, List.mem_append] at he
        rcases he with he | he
        · exact hnone e he
        · exact h e he
      · refine .inr ⟨b :: before, batch, rest, rfl, ?_, hbatch⟩
        intro e he
        rw [List.flatten_cons, List.mem_append] at he
        rcases he with he | he
        · exact hnone e he
        · exact hbefore e he
    · exact .inr ⟨[], b, bs, rfl, by simp, hb⟩

/-! ### Completeness -/

/-- The handler received, once each and in journal order, the entries of the initial read and
every matching entry that arrived later. -/
structure Complete (j : Journal) (q : Query) (batches : List (List Entry)) (f : Follower) : Prop where
  order : f.delivered.Sublist (j.entries ++ batches.flatten)
  once : (f.delivered.map (·.cursor)).Nodup
  initial : ∀ es, read j q = .ok es → ∀ e ∈ es, e ∈ f.delivered
  arrived : ∀ e ∈ batches.flatten, matchesQuery q e = true → e ∈ f.delivered

/-- When following loses nothing. -/
def Lossless (j : Journal) (q : Query) (batches : List (List Entry)) : Prop :=
  q.since.isSome = true ∨ q.cursor.isSome = true ∨
    (∃ e ∈ j.entries, matchesQuery q e = true) ∨ NoBurst q batches

theorem Complete.of_suffix {j : Journal} {q : Query} {batches : List (List Entry)} {f : Follower}
    {start : ℕ} (ho : Ordered (j.entries ++ batches.flatten)) (hs : start ≤ j.entries.length)
    (hd : f.delivered = ((j.entries ++ batches.flatten).drop start).filter (matchesQuery q))
    (hi : ∀ es, read j q = .ok es → ∀ e ∈ es, e ∈ (j.entries.drop start).filter (matchesQuery q)) :
    Complete j q batches f := by
  have hsub : f.delivered.Sublist (j.entries ++ batches.flatten) := by
    rw [hd]
    exact List.filter_sublist.trans (List.drop_sublist _ _)
  rw [List.drop_append_of_le_length hs, List.filter_append] at hd
  refine ⟨hsub, (hsub.map _).nodup ho.distinct, ?_, ?_⟩
  · intro es hes e he
    rw [hd]
    exact List.mem_append_left _ (hi es hes e he)
  · intro e he hm
    rw [hd]
    exact List.mem_append_right _ (List.mem_filter.mpr ⟨he, hm⟩)

/-- A query with a start of its own loses nothing. -/
theorem complete_start {j : Journal} {q : Query} {batches : List (List Entry)} {f f₀ : Follower}
    {k : ℕ} (hn : q.newestFirst = false) (hl : 1 ≤ q.limit)
    (ho : Ordered (j.entries ++ batches.flatten)) (hs : startIndex j q = some k)
    (ha : Anchored j q batches.flatten) (h₀ : Follower.poll ⟨j, q, []⟩ = .ok f₀)
    (hp : f₀.polls batches = .ok f) (hend : read f.journal f.continuation = .ok []) :
    Complete j q batches f := by
  have hk : k ≤ j.entries.length := by
    obtain ⟨-, -, rfl⟩ | ⟨c, hq, ⟨pre, e, post, hj, -, -, rfl⟩ | ⟨habsent, hnear⟩⟩ := startIndex_cases hs
    · exact Nat.zero_le _
    · rw [hj, List.length_append, List.length_cons]
      omega
    · rcases ha c hq with ⟨e, he, hc⟩ | ⟨_, hplace⟩
      · exact absurd hc (habsent e he)
      · exact hplace k hnear
  have hset : Settled j q ([] :: batches).flatten := by
    intro c hc
    rcases ha c hc with h | h
    · exact .inl h
    · exact .inr (by simpa using h.1)
  have hall : Follower.polls ⟨j, q, []⟩ ([] :: batches) = .ok f := by
    rw [polls_cons]
    unfold Follower.append
    rw [grow_nil, h₀]
    exact hp
  have hinit : ∀ es, read j q = .ok es →
      ∀ e ∈ es, e ∈ (j.entries.drop k).filter (matchesQuery q) := by
    intro es hes e he
    rw [read_start hn hl ho.init.distinct hs hes] at he
    exact List.mem_of_mem_take he
  refine Complete.of_suffix ho hk ?_ hinit
  rcases polls_start hn hl ([] :: batches) j f (by simpa using ho) hs hk hset hall with h | ⟨ht, hj⟩
  · -- Nothing was ever found, and the last read found nothing either.
    subst h
    have hlast := read_start hn hl (by simpa [Journal.grow] using ho.distinct)
      ((startIndex_grow hset).trans hs) hend
    have hnone := page_eq_nil hl hlast.symm
    simpa [Journal.grow] using hnone.symm
  · have hj' : f.journal.entries = j.entries ++ batches.flatten := by simpa using hj
    rw [ht.finished hn hl (by rw [hj']; exact ho) hend, hj']

/-- Without a start, entries already there or a first batch of at most a page are enough. -/
theorem complete_recent {j : Journal} {q : Query} {batches : List (List Entry)} {f f₀ : Follower}
    (hn : q.newestFirst = false) (hl : 1 ≤ q.limit) (ho : Ordered (j.entries ++ batches.flatten))
    (hq : q.cursor = none) (hs : q.since = none) (h₀ : Follower.poll ⟨j, q, []⟩ = .ok f₀)
    (hp : f₀.polls batches = .ok f) (hend : read f.journal f.continuation = .ok [])
    (h : (∃ e ∈ j.entries, matchesQuery q e = true) ∨ NoBurst q batches) :
    Complete j q batches f := by
  by_cases hnone : j.entries.filter (matchesQuery q) = []
  · have hburst : NoBurst q batches := by
      rcases h with ⟨e, he, hm⟩ | h
      · have := List.filter_eq_nil_iff.mp hnone e he
        exact absurd hm this
      · exact h
    have hempty := read_none_empty hn hl hq hs hnone
    rw [poll_empty hempty] at h₀
    injection h₀ with h₀
    subst h₀
    have hinit : ∀ es, read j q = .ok es →
        ∀ e ∈ es, e ∈ (j.entries.drop 0).filter (matchesQuery q) := by
      intro es hes e he
      rw [hempty] at hes
      injection hes with hes
      rw [← hes] at he
      simp at he
    refine Complete.of_suffix ho (Nat.zero_le _) ?_ hinit
    rcases first_match (matchesQuery q) batches with hb | ⟨before, batch, rest, rfl, hb, hbatch⟩
    · rw [polls_nothing hn hl hq hs batches j hnone hb] at hp
      injection hp with hp
      subst hp
      have hflat : batches.flatten.filter (matchesQuery q) = [] := by
        rw [List.filter_eq_nil_iff]
        intro e he
        simp [hb e he]
      rw [List.drop_zero, List.filter_append, hnone, hflat]
      rfl
    · have hcount := hburst before batch rest rfl hb
      obtain ⟨start, ht, hj, hst, htake⟩ := polls_first hn hl hq hs hnone hb hbatch ho hp
      rw [Nat.sub_eq_zero_of_le hcount, List.take_zero] at htake
      rw [ht.finished hn hl (by rw [hj]; exact ho) hend, hj]
      -- Everything before the start is without a match.
      have hflat : j.entries ++ (before ++ batch :: rest).flatten =
          (j.entries ++ before.flatten ++ batch) ++ rest.flatten := by simp
      have hsplit := List.take_append_drop start (j.entries ++ before.flatten ++ batch)
      rw [hflat, List.drop_append_of_le_length hst, List.drop_zero, List.filter_append,
        List.filter_append]
      conv_rhs => rw [← hsplit, List.filter_append, htake, List.nil_append]
  · obtain ⟨f₁, start, hf₁, ht, hj, hst, _, hread⟩ := Tracks.enter_recent hn hl hq hs hnone
    rw [hf₁] at h₀
    injection h₀ with h₀
    subst h₀
    rw [← hj] at ho
    obtain ⟨ht', hj'⟩ := ht.polls hn hl ho hp
    rw [hj] at ho hj'
    refine Complete.of_suffix ho hst ?_ ?_
    · rw [ht'.finished hn hl (by rw [hj']; exact ho) hend, hj']
    · intro es hes e he
      rw [hread] at hes
      injection hes with hes
      rw [hes]
      exact he

/-- A first batch of more than a page loses its first matching entry. -/
theorem burst_loses {j : Journal} {q : Query} {before rest : List (List Entry)} {batch : List Entry}
    {f : Follower} (hn : q.newestFirst = false) (hl : 1 ≤ q.limit)
    (ho : Ordered (j.entries ++ (before ++ batch :: rest).flatten)) (hq : q.cursor = none)
    (hs : q.since = none) (hnone : j.entries.filter (matchesQuery q) = [])
    (hb : ∀ e ∈ before.flatten, matchesQuery q e = false)
    (hburst : q.limit < batch.countP (matchesQuery q))
    (hp : Follower.polls ⟨j, q, []⟩ (before ++ batch :: rest) = .ok f)
    (hend : read f.journal f.continuation = .ok []) :
    ∃ e ∈ (before ++ batch :: rest).flatten, matchesQuery q e = true ∧ e ∉ f.delivered := by
  have hlen : q.limit < (batch.filter (matchesQuery q)).length := by
    rw [← List.countP_eq_length_filter]
    exact hburst
  have hbatch : batch.filter (matchesQuery q) ≠ [] := List.length_pos_iff.mp (by omega)
  obtain ⟨start, ht, hj, hst, htake⟩ := polls_first hn hl hq hs hnone hb hbatch ho hp
  have hd := ht.finished hn hl (by rw [hj]; exact ho) hend
  obtain ⟨e, es, hes⟩ := List.exists_cons_of_ne_nil hbatch
  obtain ⟨d, hd'⟩ : ∃ d, batch.countP (matchesQuery q) - q.limit = d + 1 :=
    ⟨batch.countP (matchesQuery q) - q.limit - 1, by omega⟩
  rw [hd', hes, List.take_succ_cons] at htake
  have hmem : e ∈ batch.filter (matchesQuery q) := by
    rw [hes]
    exact List.mem_cons_self ..
  have hflat : j.entries ++ (before ++ batch :: rest).flatten =
      (j.entries ++ before.flatten ++ batch) ++ rest.flatten := by simp
  -- The entry lies before the start of what was delivered.
  have hbefore : e ∈ (j.entries ++ (before ++ batch :: rest).flatten).take start := by
    have hin : e ∈ (j.entries ++ before.flatten ++ batch).take start :=
      List.mem_of_mem_filter (by rw [htake]; exact List.mem_cons_self ..)
    rw [hflat, List.take_append_of_le_length hst]
    exact hin
  refine ⟨e, ?_, (List.mem_filter.mp hmem).2, ?_⟩
  · simp only [List.flatten_append, List.flatten_cons, List.mem_append]
    exact .inr (.inl (List.mem_filter.mp hmem).1)
  · intro hdel
    rw [hd, hj] at hdel
    have hafter := List.mem_of_mem_filter hdel
    have hnodup : (j.entries ++ (before ++ batch :: rest).flatten).Nodup := ho.distinct.of_map _
    rw [← List.take_append_drop start (j.entries ++ (before ++ batch :: rest).flatten),
      List.nodup_append] at hnodup
    exact hnodup.2.2 e hbefore e hafter rfl

theorem follow_ok {j : Journal} {q : Query} {batches : List (List Entry)} {f : Follower}
    (h : follow j q batches = .ok f) :
    ∃ f₀, Follower.poll ⟨j, q, []⟩ = .ok f₀ ∧ f₀.polls batches = .ok f := by
  unfold follow at h
  split at h
  · simp at h
  · split at h
    · simp at h
    · rename_i f₀ h₀
      split at h
      · simp at h
      · rename_i f₁ h₁
        injection h with h
        subst h
        exact ⟨f₀, h₀, h₁⟩

/-- Following loses and repeats nothing exactly when the query has a start of its own, or
something matches already at the initial read, or the first batch with a match fits a page. -/
theorem follow_complete (j : Journal) (q : Query) (batches : List (List Entry)) (f : Follower)
    (hn : q.newestFirst = false) (hl : 1 ≤ q.limit) (ho : Ordered (j.entries ++ batches.flatten))
    (ha : Anchored j q batches.flatten) (hf : follow j q batches = .ok f)
    (hend : read f.journal f.continuation = .ok []) :
    Complete j q batches f ↔ Lossless j q batches := by
  obtain ⟨f₀, h₀, hp⟩ := follow_ok hf
  have hfree : q.cursor.isSome = false → q.since.isSome = false →
      q.cursor = none ∧ q.since = none := by
    intro hq hs
    exact ⟨Option.not_isSome_iff_eq_none.mp (by simp [hq]),
      Option.not_isSome_iff_eq_none.mp (by simp [hs])⟩
  constructor
  · intro hc
    by_contra hlost
    unfold Lossless at hlost
    push Not at hlost
    obtain ⟨hs, hq, hm, hb⟩ := hlost
    obtain ⟨hq, hs⟩ := hfree (by simpa using hq) (by simpa using hs)
    have hnone : j.entries.filter (matchesQuery q) = [] :=
      List.filter_eq_nil_iff.mpr hm
    unfold NoBurst at hb
    push Not at hb
    obtain ⟨before, batch, rest, rfl, hbefore, hburst⟩ := hb
    rw [poll_empty (read_none_empty hn hl hq hs hnone)] at h₀
    injection h₀ with h₀
    subst h₀
    obtain ⟨e, he, hme, hlost⟩ := burst_loses hn hl ho hq hs hnone hbefore hburst hp hend
    exact hlost (hc.arrived e he hme)
  · intro hlossless
    cases hq : q.cursor with
    | some c =>
      cases hs : startIndex j q with
      | some k => exact complete_start hn hl ho hs ha h₀ hp hend
      | none =>
        -- A cursor without a place is refused, and the initial read raises.
        have hrefused := read_refused (by omega) hq (seekCursor_none hq hs)
        unfold Follower.poll at h₀
        rw [hrefused] at h₀
        simp at h₀
    | none =>
      cases hs : q.since with
      | some t =>
        have hstart : startIndex j q = some 0 := by
          unfold startIndex
          rw [hq, hs]
          rfl
        exact complete_start hn hl ho hstart ha h₀ hp hend
      | none =>
        refine complete_recent hn hl ho hq hs h₀ hp hend ?_
        rcases hlossless with h | h | h
        · rw [hs] at h
          simp at h
        · rw [hq] at h
          simp at h
        · exact h

namespace Fixture

def first : Entry := { timestamp := 1, cursor := ascii "a" }
def second : Entry := { timestamp := 2, cursor := ascii "b" }

/-- Pages of one entry. -/
def single : Query := { limit := 1 }

end Fixture

theorem follow_complete_pages :
    ∃ f, follow ⟨[Fixture.first], fun _ => none⟩ Fixture.single [[Fixture.second], []] = .ok f ∧
      f.delivered = [Fixture.first, Fixture.second] ∧
      Complete ⟨[Fixture.first], fun _ => none⟩ Fixture.single [[Fixture.second], []] f := by
  refine ⟨_, rfl, by decide, ?_⟩
  refine (follow_complete _ _ _ _ rfl (by decide) ?_ ?_ rfl (by decide)).mpr ?_
  · exact ⟨by decide, by decide, by decide⟩
  · intro c hc
    exact absurd hc (by simp [Fixture.single, Query.cursor])
  · exact .inr (.inr (.inl ⟨Fixture.first, List.mem_singleton_self _, by decide⟩))

/-- Two entries arrive in an empty journal before the first read of the loop: with a page of
one entry, the first is never delivered. -/
theorem follow_loses :
    ¬ ∀ (j : Journal) (q : Query) (batches : List (List Entry)) (f : Follower),
      q.newestFirst = false → 1 ≤ q.limit → Ordered (j.entries ++ batches.flatten) →
      follow j q batches = .ok f → read f.journal f.continuation = .ok [] →
      Complete j q batches f := by
  intro h
  have hc := h ⟨[], fun _ => none⟩ Fixture.single [[Fixture.first, Fixture.second], []] _ rfl (by decide)
    ⟨by decide, by decide, by decide⟩ rfl (by decide)
  have hlost := hc.arrived Fixture.first (by decide) (by decide)
  revert hlost
  decide

end Monutchee.Logging
