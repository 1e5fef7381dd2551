import Monutchee.Logging.Follow

/-!
# Pages of a growing journal (journal_reader.cpp:168-194, journal_reader.hpp:76-80)

A client reads a page, takes the cursor of its last entry as `after` of the next query, and
stops at an empty page; between two reads entries may be appended. A query for the newest entries
walks away from what is appended, the other one towards it.
-/

namespace Monutchee.Logging
open Monutchee.System (Bytes ascii)

/-- The pages of a reading over the states of the journal at its reads, up to the first empty
one. -/
def readPages (q : Query) : List (List Entry) → Except JournalError (List (List Entry))
  | [] => .ok []
  | es :: later => do
    let result ← boundedPage es q
    match result.getLast? with
    | none => return [[]]
    | some e =>
      let pages ← readPages { q with after := some e.cursor } later
      return result :: pages

/-- A reading that came to its empty page. -/
def Finished (pages : List (List Entry)) : Prop := pages.getLast? = some []

/-- Entries as the journal gives them out. -/
structure Sound (es : List Entry) : Prop where
  distinct : (es.map Entry.cursor).Nodup
  named : ∀ e ∈ es, e.cursor ≠ []

/-- The entries in the order of a query. -/
def ordered (q : Query) (es : List Entry) : List Entry := if q.newestFirst then es.reverse else es

theorem mem_ordered {q : Query} {es : List Entry} {e : Entry} : e ∈ ordered q es ↔ e ∈ es := by
  unfold ordered
  split
  · exact List.mem_reverse
  · exact Iff.rfl

theorem ordered_distinct {q : Query} {es : List Entry} (h : Sound es) :
    ((ordered q es).map Entry.cursor).Nodup := by
  unfold ordered
  split
  · rw [List.map_reverse, List.nodup_reverse]
    exact h.distinct
  · exact h.distinct

variable {q : Query} {pre post : List Entry} {e : Entry}

/-! ### One page -/

/-- The query of every page but the first. -/
def following (q : Query) (e : Entry) : Query := { q with after := some e.cursor }

theorem boundedPage_first {es : List Entry} (hq : q.cursor = none) (hl : 1 ≤ q.limit) :
    boundedPage es q = .ok (page q q.limit (ordered q es)) :=
  boundedPage_start hq (by omega) es

/-- A page behind an entry is a page of the entries that come after it. -/
theorem boundedPage_following {es : List Entry} (hl : 1 ≤ q.limit) (h : Sound es)
    (hes : ordered q es = pre ++ e :: post) :
    boundedPage es (following q e) = .ok (page q q.limit post) := by
  have hmem : e ∈ es := by
    rw [← mem_ordered (q := q), hes]
    simp
  have hcursor : (following q e).cursor = some e.cursor := by
    have hne := h.named e hmem
    simp [Query.cursor, following, hne]
  have hpre : ∀ x ∈ pre, x.cursor ≠ e.cursor := by
    have hd := ordered_distinct (q := q) h
    rw [hes, List.map_append, List.map_cons, List.nodup_append] at hd
    intro x hx
    exact hd.2.2 _ (List.mem_map_of_mem hx) _ (List.mem_cons_self ..)
  have hlimit : (following q e).limit ≠ 0 := by
    show q.limit ≠ 0
    omega
  rw [boundedPage_found hlimit hcursor ⟨e, hmem, rfl⟩]
  show Except.ok (pageLoop (following q e) false [] (ordered q es)) = _
  rw [hes, pageLoop_cursor hcursor rfl hpre, pageLoop_true [] _ (by rw [List.length_nil]; exact hl)]
  rfl

theorem ne_nil_of_last {p : List Entry} (h : p.getLast? = some e) : p ≠ [] := by
  rintro rfl
  cases h

/-- What a page leaves to be read: nothing that matches, or what comes after its last entry. -/
theorem page_cases (hl : 1 ≤ q.limit) (es : List Entry) :
    (page q q.limit es = [] ∧ es.filter (matchesQuery q) = []) ∨
      ∃ mid e post, es = mid ++ e :: post ∧ (page q q.limit es).getLast? = some e ∧
        page q q.limit es = (mid ++ [e]).filter (matchesQuery q) := by
  by_cases hp : page q q.limit es = []
  · exact .inl ⟨hp, page_eq_nil hl hp⟩
  · obtain ⟨mid, e, post, rfl, he, hpage⟩ := page_split q q.limit es hl hp
    refine .inr ⟨mid, e, post, rfl, ?_, hpage⟩
    rw [hpage, List.filter_append, List.filter_cons_of_pos he]
    simp

theorem filter_behind (m : Entry → Bool) (mid post : List Entry) (e : Entry) :
    (mid ++ e :: post).filter m = (mid ++ [e]).filter m ++ post.filter m := by
  rw [← List.filter_append, List.append_assoc, List.singleton_append]

theorem readPages_stop {es : List Entry} {later : List (List Entry)} (h : boundedPage es q = .ok []) :
    readPages q (es :: later) = .ok [[]] := by
  rw [readPages, h]
  rfl

theorem readPages_more {es p : List Entry} {later pages : List (List Entry)}
    (h : boundedPage es q = .ok p) (hp : p.getLast? = some e)
    (hr : readPages (following q e) later = .ok pages) : readPages q (es :: later) = .ok (p :: pages) := by
  unfold following at hr
  rw [readPages, h]
  show (match p.getLast? with | none => _ | some e => _) = _
  rw [hp]
  show (readPages { q with after := some e.cursor } later >>= _) = _
  rw [hr]
  rfl

theorem finished_single : Finished [[]] := rfl

theorem finished_cons {p : List Entry} {pages : List (List Entry)} (hp : p ≠ []) :
    Finished (p :: pages) ↔ Finished pages := by
  unfold Finished
  cases pages with
  | nil =>
    rw [List.getLast?_singleton, List.getLast?_nil]
    simpa using hp
  | cons x xs => rw [List.getLast?_cons_cons]

/-! ### Away from the appended entries -/

/-- Behind an entry, newest first: the pages are those of the older entries, which no append
changes. -/
theorem newest_following {states : List (List Entry)} (hl : 1 ≤ q.limit) (hsound : ∀ es ∈ states, Sound es)
    (hes : ∀ es ∈ states, ∃ newer, ordered q es = newer ++ e :: post) :
    ∃ pages, readPages (following q e) states = .ok pages ∧
      pages.flatten <+: post.filter (matchesQuery q) ∧
      (Finished pages → pages.flatten = post.filter (matchesQuery q)) ∧
      ((post.filter (matchesQuery q)).length < states.length → Finished pages) := by
  induction states generalizing e post with
  | nil =>
    refine ⟨[], rfl, List.nil_prefix, ?_, ?_⟩
    · intro h
      cases h
    · intro h
      simp at h
  | cons es states ih =>
    obtain ⟨newer, hnewer⟩ := hes es (List.mem_cons_self ..)
    have hpage := boundedPage_following hl (hsound es (List.mem_cons_self ..)) hnewer
    rcases page_cases hl post with ⟨hnil, hnone⟩ | ⟨mid, e', post', rfl, hlast, hmid⟩
    · rw [hnil] at hpage
      refine ⟨[[]], readPages_stop hpage, ?_, ?_, fun _ => finished_single⟩
      · rw [hnone]
        exact List.prefix_refl _
      · intro _
        rw [hnone]
        rfl
    · have hstates : ∀ x ∈ states, ∃ newer', ordered q x = newer' ++ e' :: post' := by
        intro x hx
        obtain ⟨n, hn⟩ := hes x (List.mem_cons_of_mem _ hx)
        exact ⟨n ++ e :: mid, by simpa using hn⟩
      have hsound' : ∀ x ∈ states, Sound x := fun x hx => hsound x (List.mem_cons_of_mem _ hx)
      obtain ⟨pages, hread, hbegins, hall, hends⟩ := ih hsound' hstates
      have hmore := readPages_more hpage hlast hread
      have hne : page q q.limit (mid ++ e' :: post') ≠ [] := ne_nil_of_last hlast
      rw [filter_behind, ← hmid]
      generalize page q q.limit (mid ++ e' :: post') = p at hmore hne
      refine ⟨p :: pages, hmore, ?_, ?_, ?_⟩
      · rw [List.flatten_cons]
        exact (List.prefix_append_right_inj _).mpr hbegins
      · intro hf
        rw [List.flatten_cons, hall ((finished_cons hne).mp hf)]
      · intro hlen
        apply (finished_cons hne).mpr
        apply hends
        have hpos := List.length_pos_of_ne_nil hne
        rw [List.length_append, List.length_cons] at hlen
        omega

/-! ### Towards the appended entries -/

/-- The state of the journal at the last read. -/
def lastState (states pages : List (List Entry)) : Option (List Entry) := (states.take pages.length).getLast?

theorem lastState_cons {es p : List Entry} {states pages : List (List Entry)} (h : pages ≠ [])
    (hs : states ≠ []) : lastState (es :: states) (p :: pages) = lastState states pages := by
  obtain ⟨x, xs, rfl⟩ := List.exists_cons_of_ne_nil h
  obtain ⟨y, ys, rfl⟩ := List.exists_cons_of_ne_nil hs
  unfold lastState
  rw [List.length_cons, List.length_cons, List.take_succ_cons, List.take_succ_cons,
    List.getLast?_cons_cons]

/-- Pages of the last state behind its first `k` entries, in order and up to the last read. -/
structure Onward (q : Query) (k : ℕ) (states pages : List (List Entry)) : Prop where
  begins : ∀ final, states.getLast? = some final → pages.flatten <+: (final.drop k).filter (matchesQuery q)
  all : Finished pages → ∃ final, lastState states pages = some final ∧
    pages.flatten = (final.drop k).filter (matchesQuery q)
  ends : (∀ final, states.getLast? = some final →
    ((final.drop k).filter (matchesQuery q)).length < states.length) → states ≠ [] → Finished pages

namespace Onward
variable {k k' : ℕ} {es p : List Entry} {states pages : List (List Entry)}

theorem nil : Onward q k [] [] := by
  refine ⟨?_, ?_, ?_⟩
  · intro final h
    cases h
  · intro h
    cases h
  · intro _ h
    exact absurd rfl h

theorem stop (h : (es.drop k).filter (matchesQuery q) = []) : Onward q k (es :: states) [[]] := by
  refine ⟨?_, ?_, fun _ _ => finished_single⟩
  · intro final _
    exact List.nil_prefix
  · intro _
    exact ⟨es, rfl, h.symm⟩

/-- A page that was the last one at the end of the states. -/
theorem single (hp : p ≠ []) (hes : (es.drop k).filter (matchesQuery q) = p ++ (es.drop k').filter (matchesQuery q)) :
    Onward q k [es] [p] := by
  refine ⟨?_, ?_, ?_⟩
  · intro final hfinal
    have he : es = final := Option.some.inj hfinal
    rw [← he, hes, List.flatten_singleton]
    exact List.prefix_append p _
  · intro hf
    exact absurd ((finished_cons hp).mp hf) (by simp [Finished])
  · intro hlen _
    have hone := hlen es rfl
    have hpos := List.length_pos_of_ne_nil hp
    rw [hes, List.length_append, List.length_singleton] at hone
    omega

/-- A page and the pages behind it. -/
theorem more (hp : p ≠ []) (hstates : states ≠ []) (h : Onward q k' states pages)
    (hrest : ∀ x ∈ states, (x.drop k).filter (matchesQuery q) = p ++ (x.drop k').filter (matchesQuery q)) :
    Onward q k (es :: states) (p :: pages) := by
  have hlast : (es :: states).getLast? = states.getLast? := by
    obtain ⟨x, xs, rfl⟩ := List.exists_cons_of_ne_nil hstates
    exact List.getLast?_cons_cons
  refine ⟨?_, ?_, ?_⟩
  · intro final hfinal
    rw [hlast] at hfinal
    rw [hrest final (List.mem_of_getLast? hfinal), List.flatten_cons]
    exact (List.prefix_append_right_inj p).mpr (h.begins final hfinal)
  · intro hf
    have hfinished := (finished_cons hp).mp hf
    have hpages : pages ≠ [] := by
      rintro rfl
      cases hfinished
    obtain ⟨final, hstate, hflat⟩ := h.all hfinished
    have hmem : final ∈ states := List.mem_of_mem_take (List.mem_of_getLast? hstate)
    refine ⟨final, ?_, ?_⟩
    · rw [lastState_cons hpages hstates, hstate]
    · rw [List.flatten_cons, hflat, hrest final hmem]
  · intro hlen _
    apply (finished_cons hp).mpr
    apply h.ends ?_ hstates
    intro final hfinal
    have hlonger := hlen final (by rw [hlast]; exact hfinal)
    have hpos := List.length_pos_of_ne_nil hp
    rw [hrest final (List.mem_of_getLast? hfinal), List.length_append, List.length_cons] at hlonger
    omega

end Onward

/-- The pages of `Q`, which is the first query or one behind an entry, where those after it are known. -/
theorem oldest_page {Q : Query} {k : ℕ} {es : List Entry} {states : List (List Entry)} (hl : 1 ≤ q.limit)
    (hQ : ∀ e, following Q e = following q e) (hpage : boundedPage es Q = .ok (page q q.limit (es.drop k)))
    (hgrow : ∀ x ∈ states, es <+: x)
    (hnext : ∀ front e post, es = front ++ e :: post → ∃ pages, readPages (following q e) states = .ok pages ∧
      Onward q (front.length + 1) states pages) :
    ∃ pages, readPages Q (es :: states) = .ok pages ∧ Onward q k (es :: states) pages := by
  rcases page_cases hl (es.drop k) with ⟨hnil, hnone⟩ | ⟨mid, e, post, hsplit, hlast, hmid⟩
  · rw [hnil] at hpage
    exact ⟨[[]], readPages_stop hpage, .stop hnone⟩
  · have hlong : (es.take k).length = k := by
      have hlength := congrArg List.length hsplit
      simp only [List.length_drop, List.length_append, List.length_cons] at hlength
      rw [List.length_take]
      omega
    have hes : es = (es.take k ++ mid) ++ e :: post := by
      rw [List.append_assoc, ← hsplit, List.take_append_drop]
    obtain ⟨pages, hread, honward⟩ := hnext _ e post hes
    rw [← hQ] at hread
    have hmore := readPages_more hpage hlast hread
    have hne : page q q.limit (es.drop k) ≠ [] := ne_nil_of_last hlast
    generalize page q q.limit (es.drop k) = p at hmore hne hmid
    -- An appended state differs behind the page only.
    have hrest : ∀ x, es <+: x → (x.drop k).filter (matchesQuery q) =
        p ++ (x.drop ((es.take k ++ mid).length + 1)).filter (matchesQuery q) := by
      rintro x ⟨appended, rfl⟩
      have hfront : es ++ appended = es.take k ++ (mid ++ e :: (post ++ appended)) := by
        conv_lhs => rw [hes]
        simp
      have hdrop : (es ++ appended).drop k = mid ++ e :: (post ++ appended) := by
        rw [hfront]
        exact List.drop_left' hlong
      have hbehind : (es ++ appended).drop ((es.take k ++ mid).length + 1) = post ++ appended := by
        rw [hfront, ← List.singleton_append, ← List.append_assoc, ← List.append_assoc]
        exact List.drop_left' (by simp [Nat.add_assoc])
      rw [hdrop, hbehind, filter_behind, ← hmid]
    refine ⟨p :: pages, hmore, ?_⟩
    by_cases hstates : states = []
    · subst hstates
      have hnone : pages = [] := (Except.ok.inj hread).symm
      subst hnone
      exact .single hne (hrest es (List.prefix_refl es))
    · exact .more hne hstates honward fun x hx => hrest x (hgrow x hx)

/-- Behind an entry, oldest first: the pages are those of the newer entries, up to the ones that
the last read found. -/
theorem oldest_following {states : List (List Entry)} (hn : q.newestFirst = false) (hl : 1 ≤ q.limit)
    (hsound : ∀ es ∈ states, Sound es) (hgrow : states.Pairwise (· <+: ·))
    (hes : ∀ es ∈ states, ∃ post, es = pre ++ e :: post) :
    ∃ pages, readPages (following q e) states = .ok pages ∧ Onward q (pre.length + 1) states pages := by
  induction states generalizing e pre with
  | nil => exact ⟨[], rfl, .nil⟩
  | cons es states ih =>
    obtain ⟨post, hpost⟩ := hes es (List.mem_cons_self ..)
    have hord : ordered q es = pre ++ e :: post := by
      unfold ordered
      rw [hn, if_neg Bool.false_ne_true]
      exact hpost
    have hpage := boundedPage_following hl (hsound es (List.mem_cons_self ..)) hord
    have hdrop : es.drop (pre.length + 1) = post := by
      rw [hpost, ← List.singleton_append, ← List.append_assoc]
      exact List.drop_left' (by simp)
    obtain ⟨hnext, hgrow'⟩ := List.pairwise_cons.mp hgrow
    rw [← hdrop] at hpage
    apply oldest_page (Q := following q e) hl (fun _ => rfl) hpage hnext
    intro front e' post' hfront
    apply ih (fun x hx => hsound x (List.mem_cons_of_mem _ hx)) hgrow'
    intro x hx
    obtain ⟨appended, rfl⟩ := hnext x hx
    exact ⟨post' ++ appended, by rw [hfront]; simp⟩

/-! ### Whole readings -/

/-- What a reading is to deliver, of the state at its first read and of the one at its last. -/
structure Delivers (q : Query) (first : List Entry) (states pages : List (List Entry)) : Prop where
  once : pages.flatten.Nodup
  newest : Finished pages → q.newestFirst = true →
    pages.flatten = (first.filter (matchesQuery q)).reverse
  oldest : Finished pages → q.newestFirst = false → ∃ final,
    lastState states pages = some final ∧ pages.flatten = final.filter (matchesQuery q)
  ends : (∀ es ∈ states, (es.filter (matchesQuery q)).length < states.length) → Finished pages

theorem Sound.nodup {es : List Entry} (h : Sound es) : es.Nodup := List.Nodup.of_map _ h.distinct

theorem newest_delivers {first : List Entry} {later : List (List Entry)} (hq : q.cursor = none)
    (hl : 1 ≤ q.limit) (hn : q.newestFirst = true) (hgrow : ∀ es ∈ later, first <+: es)
    (hsound : ∀ es ∈ first :: later, Sound es) :
    ∃ pages, readPages q (first :: later) = .ok pages ∧ Delivers q first (first :: later) pages := by
  have hord : ∀ es, ordered q es = es.reverse := by
    intro es
    rw [ordered, hn, if_pos rfl]
  have hpage := @boundedPage_first q first hq hl
  have hfirst : (first.filter (matchesQuery q)).reverse = first.reverse.filter (matchesQuery q) :=
    (List.filter_reverse ..).symm
  have hcount : (first.filter (matchesQuery q)).length = (first.reverse.filter (matchesQuery q)).length := by
    rw [← hfirst, List.length_reverse]
  have hnodup : (first.reverse.filter (matchesQuery q)).Nodup :=
    (List.nodup_reverse.mpr (hsound first (List.mem_cons_self ..)).nodup).filter _
  rw [hord] at hpage
  rcases page_cases hl first.reverse with ⟨hnil, hnone⟩ | ⟨mid, e, post, hsplit, hlast, hmid⟩
  · rw [hnil] at hpage
    refine ⟨[[]], readPages_stop hpage, ⟨List.nodup_nil, ?_, ?_, fun _ => finished_single⟩⟩
    · intro _ _
      rw [hfirst, hnone]
      rfl
    · intro _ hf
      rw [hn] at hf
      cases hf
  · have hstates : ∀ es ∈ later, ∃ newer, ordered q es = newer ++ e :: post := by
      intro es hes
      obtain ⟨appended, rfl⟩ := hgrow es hes
      exact ⟨appended.reverse ++ mid, by rw [hord, List.reverse_append, hsplit]; simp⟩
    obtain ⟨pages, hread, hbegins, hall, hends⟩ := newest_following hl
      (fun es hes => hsound es (List.mem_cons_of_mem _ hes)) hstates
    have hmore := readPages_more hpage hlast hread
    have hne : page q q.limit first.reverse ≠ [] := ne_nil_of_last hlast
    have hrest : first.reverse.filter (matchesQuery q) =
        page q q.limit first.reverse ++ post.filter (matchesQuery q) := by
      rw [hmid, hsplit, filter_behind]
    generalize page q q.limit first.reverse = p at hmore hne hrest
    refine ⟨p :: pages, hmore, ⟨?_, ?_, ?_, ?_⟩⟩
    · rw [hrest] at hnodup
      exact hnodup.sublist ((List.prefix_append_right_inj p).mpr hbegins).sublist
    · intro hf _
      rw [hfirst, hrest, List.flatten_cons, hall ((finished_cons hne).mp hf)]
    · intro _ hf
      rw [hn] at hf
      cases hf
    · intro hlen
      apply (finished_cons hne).mpr
      apply hends
      have hlonger := hlen first (List.mem_cons_self ..)
      have hpos := List.length_pos_of_ne_nil hne
      rw [hcount, hrest, List.length_append, List.length_cons] at hlonger
      omega

theorem oldest_delivers {first : List Entry} {later : List (List Entry)} (hq : q.cursor = none)
    (hl : 1 ≤ q.limit) (hn : q.newestFirst = false) (hgrow : (first :: later).Pairwise (· <+: ·))
    (hsound : ∀ es ∈ first :: later, Sound es) :
    ∃ pages, readPages q (first :: later) = .ok pages ∧ Delivers q first (first :: later) pages := by
  have hord : ordered q first = first := by
    rw [ordered, hn, if_neg Bool.false_ne_true]
  have hpage : boundedPage first q = .ok (page q q.limit (first.drop 0)) := by
    rw [boundedPage_first hq hl, hord, List.drop_zero]
  obtain ⟨hnext, hgrow'⟩ := List.pairwise_cons.mp hgrow
  have hreading : ∃ pages, readPages q (first :: later) = .ok pages ∧ Onward q 0 (first :: later) pages := by
    apply oldest_page hl (fun _ => rfl) hpage hnext
    intro front e post hfront
    apply oldest_following hn hl (fun es hes => hsound es (List.mem_cons_of_mem _ hes)) hgrow'
    intro x hx
    obtain ⟨appended, rfl⟩ := hnext x hx
    exact ⟨post ++ appended, by rw [hfront]; simp⟩
  obtain ⟨pages, hread, honward⟩ := hreading
  refine ⟨pages, hread, ⟨?_, ?_, ?_, ?_⟩⟩
  · have hfinal := List.getLast?_eq_some_getLast (List.cons_ne_nil first later)
    have hnodup := (hsound _ (List.mem_of_getLast? hfinal)).nodup.filter (matchesQuery q)
    exact hnodup.sublist (honward.begins _ hfinal).sublist
  · intro _ hf
    rw [hn] at hf
    cases hf
  · intro hf _
    exact honward.all hf
  · intro hlen
    apply honward.ends ?_ (List.cons_ne_nil first later)
    intro final hfinal
    exact hlen final (List.mem_of_getLast? hfinal)

/-- Pagination is complete. Over any states of a journal that only grows, reading on behind the
last entry of each page never finds a cursor expired and delivers no entry twice. A finished
reading of the newest entries delivers the matching entries of the first state, from the newest to
the oldest, and one of the oldest those of the state at its last read, in order; with more reads
than there are matching entries a reading is finished. -/
theorem pagination_complete {q : Query} {first : List Entry} {later : List (List Entry)}
    (hq : q.after = none) (hl : 1 ≤ q.limit) (hgrow : (first :: later).Pairwise (· <+: ·))
    (hsound : ∀ es ∈ first :: later, (es.map Entry.cursor).Nodup ∧ ∀ e ∈ es, e.cursor ≠ []) :
    ∃ pages, readPages q (first :: later) = .ok pages ∧ pages.flatten.Nodup ∧
      (Finished pages → q.newestFirst = true →
        pages.flatten = (first.filter (matchesQuery q)).reverse) ∧
      (Finished pages → q.newestFirst = false → ∃ final,
        lastState (first :: later) pages = some final ∧ pages.flatten = final.filter (matchesQuery q)) ∧
      ((∀ es ∈ first :: later, (es.filter (matchesQuery q)).length < (first :: later).length) →
        Finished pages) := by
  have hcursor : q.cursor = none := by
    rw [Query.cursor, hq]
    rfl
  have hstates : ∀ es ∈ first :: later, Sound es := by
    intro es hes
    obtain ⟨hdistinct, hnamed⟩ := hsound es hes
    exact ⟨hdistinct, hnamed⟩
  have hreading : ∃ pages, readPages q (first :: later) = .ok pages ∧
      Delivers q first (first :: later) pages := by
    cases hn : q.newestFirst with
    | true => exact newest_delivers hcursor hl hn (List.pairwise_cons.mp hgrow).1 hstates
    | false => exact oldest_delivers hcursor hl hn hgrow hstates
  obtain ⟨pages, hread, hdelivers⟩ := hreading
  exact ⟨pages, hread, hdelivers.once, hdelivers.newest, hdelivers.oldest, hdelivers.ends⟩

namespace Fixture

/-- A journal at the reads of a client; two entries are appended between the first two. -/
def grownStates : List (List Entry) :=
  let grown := entries ++ [{ timestamp := 13, cursor := ascii "5" },
    { timestamp := 13, cursor := ascii "6", audience := ascii "user" }]
  [grown, grown, grown, grown]

def userPages (newest : Bool) : Query :=
  { audience := some (ascii "user"), limit := 2, newestFirst := newest, strictCursor := true }

end Fixture

theorem pagination_complete_grown :
    ∃ pages, readPages (Fixture.userPages true) (Fixture.entries :: Fixture.grownStates) = .ok pages ∧
      Finished pages ∧ pages.flatten.map Entry.cursor = [ascii "4", ascii "3", ascii "1"] := by
  have hgrow : (Fixture.entries :: Fixture.grownStates).Pairwise (· <+: ·) := by decide
  have hsound : ∀ es ∈ Fixture.entries :: Fixture.grownStates,
      (es.map Entry.cursor).Nodup ∧ ∀ e ∈ es, e.cursor ≠ [] := by decide
  have hcount : ∀ es ∈ Fixture.entries :: Fixture.grownStates,
      (es.filter (matchesQuery (Fixture.userPages true))).length < 5 := by decide
  obtain ⟨pages, hread, -, hnewest, -, hends⟩ := pagination_complete (q := Fixture.userPages true)
    rfl (by decide) hgrow hsound
  have hfinished : Finished pages := hends hcount
  refine ⟨pages, hread, hfinished, ?_⟩
  rw [hnewest hfinished rfl]
  decide

-- Oldest first, the appended public entry comes at the end.
example : (readPages (Fixture.userPages false) (Fixture.entries :: Fixture.grownStates)).map
    (·.map (·.map Entry.cursor)) =
      .ok [[ascii "1", ascii "3"], [ascii "4", ascii "6"], []] := by decide

end Monutchee.Logging
