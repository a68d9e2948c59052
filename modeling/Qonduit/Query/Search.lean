import Qonduit.Core.Canonical
import Qonduit.Core.JsonRecords
import Qonduit.Processor.Lookups
import Qonduit.Query.Lookups

/-!
# Qonduit — search

`search` of `rest.rs` and the arm `qonduit_search` of `dispatch_method`: a query without the
whitespace around it is a tick number, a transaction hash, an identity or the beginning of one.
A prefix search encodes the keys of the entity family, ten thousand at most, and compares.

* **`trimBytes_padded`** — whitespace around a query is not part of it.
* **`prefixMatches_spec`** — the keys a prefix search goes through.
* **`search_exact`** — what both front ends answer to the beginning of an identity, over any
  reachable store.
-/

namespace Qonduit

/-! ## Queries

A query is trimmed and then tried as a number, as a hash, as an identity and as the beginning of
one. Both front ends do this, and show the entities they find in their own way. -/

/-- The characters with the Unicode property `White_Space`, in UTF-8. -/
def whitespace : List Bytes :=
  [[9], [10], [11], [12], [13], [32], [0xC2, 0x85], [0xC2, 0xA0], [0xE1, 0x9A, 0x80],
    [0xE2, 0x80, 0x80], [0xE2, 0x80, 0x81], [0xE2, 0x80, 0x82], [0xE2, 0x80, 0x83],
    [0xE2, 0x80, 0x84], [0xE2, 0x80, 0x85], [0xE2, 0x80, 0x86], [0xE2, 0x80, 0x87],
    [0xE2, 0x80, 0x88], [0xE2, 0x80, 0x89], [0xE2, 0x80, 0x8A], [0xE2, 0x80, 0xA8],
    [0xE2, 0x80, 0xA9], [0xE2, 0x80, 0xAF], [0xE2, 0x81, 0x9F], [0xE3, 0x80, 0x80]]

/-- Drops characters of a set from the front, `fuel` of them at most. -/
def dropLeading (chars : List Bytes) : Nat → Str → Str
  | 0, s => s
  | fuel + 1, s =>
    match chars.find? (fun ch => ch.isPrefixOf s) with
    | some ch => dropLeading chars fuel (s.drop ch.length)
    | none => s

/-- `str::trim`. A string has no more characters than bytes. -/
def trimBytes (s : Str) : Str :=
  let s := dropLeading whitespace s.length s
  (dropLeading (whitespace.map List.reverse) s.length s.reverse).reverse

def isAsciiHexdigit (ch : UInt8) : Bool := (hexNibble ch).isSome

/-- The beginning of an identity: four letters at least, and not a whole identity. -/
def IsStem (q : Str) : Prop := 4 ≤ q.length ∧ q.length < 60 ∧ q.all isAsciiUppercase

instance (q : Str) : Decidable (IsStem q) := inferInstanceAs (Decidable (_ ∧ _ ∧ _))

/-- The stored document, where there is one that parses. -/
def storedDoc (c : Crates) (stored : Option Bytes) : Option Value :=
  stored.bind (fun data => (c.serde.valueFromSlice data).toOption)

/-- The keys whose identity begins with a stem, among the first ten thousand. -/
def prefixMatches (c : Crates) (s : WarmStorage) (q : Str) : List Key32 :=
  match s.getAllEntityKeys 10000 with
  | .ok keys => keys.filter (fun key => q.isPrefixOf (encodeBase26 c key))
  | .error _ => []

/-- The tick number a query spells. -/
def queryTick (q : Str) : Option UInt32 := if q.all isDigit then parseU32 q else none

/-- The hash a query spells. -/
def queryHash (c : Crates) (q : Str) : Option Key32 :=
  if q.length = 64 ∧ q.all isAsciiHexdigit then hexKey c q else none

/-- The document of the entity whose full identity the query is. -/
def queryEntity (c : Crates) (s : WarmStorage) (q : Str) : Option Value :=
  if q.length = 60 ∧ q.all isAsciiUppercase then
    (decodeBase26 c q).bind (fun key => storedDoc c (s.getEntity key))
  else none

namespace Rest

/-- What a prefix search shows of an entity: its document, else its identity. -/
def shownEntity (c : Crates) (s : WarmStorage) (key : Key32) : Value :=
  (storedDoc c (s.getEntity key)).getD (.object [("identity", .string (encodeBase26 c key))])

def searchEntitiesByPrefix (c : Crates) (s : WarmStorage) (stem : Str) : List Value :=
  (prefixMatches c s stem).map (shownEntity c s)

def entityResults (results : List Value) : Value :=
  .object [("results", .array results), ("type", .string (ascii "entity"))]

/-- `GET /v1/search/:query`. Each attempt that finds nothing gives way to the next. -/
def search (c : Crates) (s : WarmStorage) (query : Str) : Response :=
  let q := trimBytes query
  if q.isEmpty then .badRequest "Empty search query"
  else
    match queryTick q with
    | some tick => jsonOr404 (s.getTick tick)
    | none =>
      match queryHash c q with
      | some hash => jsonOr404 (s.getTx hash)
      | none =>
        let results := if IsStem q then searchEntitiesByPrefix c s q else []
        if !results.isEmpty then .json (entityResults results)
        else
          match queryEntity c s q with
          | some v => .json (entityResults [v])
          | none => .json (.object [("results", .array [])])

end Rest

namespace Rpc

/-- A result of `qonduit_search`. -/
def searchResult (type : String) (v : Value) : Value :=
  .object [("data", v), ("type", .string (ascii type))]

/-- The results of every reading of the query that applies. -/
def searchResults (c : Crates) (s : WarmStorage) (q : Str) : List Value :=
  (((queryTick q).bind (fun tick => storedDoc c (s.getTick tick))).map (searchResult "tick")).toList
    ++ (((queryHash c q).bind (fun hash => storedDoc c (s.getTx hash))).map
      (searchResult "transaction")).toList
    ++ ((queryEntity c s q).map (searchResult "entity")).toList
    ++ (if IsStem q then (prefixMatches c s q).filterMap
        (fun key => (storedDoc c (s.getEntity key)).map (searchResult "entity")) else [])

/-- `qonduit_search`. -/
def search (c : Crates) (s : WarmStorage) (params : Option Value) : Outcome Value := do
  let query ← extractStringParam params 0
  let q := trimBytes query
  if q.isEmpty then .ok (.object [("results", .array [])])
  else .ok (.object [("results", .array (searchResults c s q))])

end Rpc

/-! ## Whitespace

Characters of several bytes are trimmed as well, so the loop works on the bytes of whole characters.
No such character begins like a letter, and none like another one. -/

/-- No character of the set is the beginning of another. -/
def PrefixFree (chars : List Bytes) : Prop :=
  ∀ a ∈ chars, a ≠ [] ∧ ∀ b ∈ chars, a.isPrefixOf b → a = b

instance (chars : List Bytes) : Decidable (PrefixFree chars) :=
  inferInstanceAs (Decidable (∀ a ∈ chars, _ ∧ ∀ b ∈ chars, _ → _))

/-- From the front no character is the beginning of another. -/
theorem prefixFree_whitespace : PrefixFree whitespace := by decide

theorem prefixFree_reverse_whitespace : PrefixFree (whitespace.map List.reverse) := by decide

/-- A character at the front of a string is the one that is found there. -/
theorem find?_prefix {chars : List Bytes} (h : PrefixFree chars) {ch : Bytes} (hch : ch ∈ chars)
    (s : Str) : chars.find? (fun a => a.isPrefixOf (ch ++ s)) = some ch := by
  cases hfind : chars.find? (fun a => a.isPrefixOf (ch ++ s)) with
  | none =>
    have := List.find?_eq_none.mp hfind ch hch
    simp at this
  | some a =>
    have ha : a ∈ chars := List.mem_of_find?_eq_some hfind
    have hfound := List.find?_some (p := fun a : Bytes => a.isPrefixOf (ch ++ s)) hfind
    have hprefix : a <+: ch ++ s := List.isPrefixOf_iff_prefix.mp hfound
    -- of two beginnings of one string the shorter begins the longer
    rcases List.prefix_or_prefix_of_prefix hprefix (List.prefix_append ch s) with hle | hle
    · rw [(h a ha).2 ch hch (List.isPrefixOf_iff_prefix.mpr hle)]
    · rw [(h ch hch).2 a ha (List.isPrefixOf_iff_prefix.mpr hle)]

/-- The padding goes, character by character, and the rest stays. The induction is on the padding,
and the loop is given more turns than there are characters. -/
theorem dropLeading_pad {chars : List Bytes} (h : PrefixFree chars) {q : Str}
    (hq : ∀ ch ∈ chars, ch.isPrefixOf q = false) {pad : List Bytes} (hpad : ∀ ch ∈ pad, ch ∈ chars)
    {fuel : Nat} (hfuel : pad.length ≤ fuel) :
    dropLeading chars fuel (pad.flatten ++ q) = q := by
  induction pad generalizing fuel with
  | nil =>
    cases fuel with
    | zero => rfl
    | succ fuel =>
      have hnone : chars.find? (fun ch => ch.isPrefixOf q) = none :=
        List.find?_eq_none.mpr (fun ch hch => by rw [hq ch hch]; decide)
      rw [List.flatten_nil, List.nil_append, dropLeading, hnone]
  | cons ch pad ih =>
    cases fuel with
    | zero => simp at hfuel
    | succ fuel =>
      have hch : ch ∈ chars := hpad ch List.mem_cons_self
      have htail : ∀ a ∈ pad, a ∈ chars := fun a ha => hpad a (List.mem_cons_of_mem _ ha)
      rw [List.length_cons] at hfuel
      rw [List.flatten_cons, List.append_assoc, dropLeading, find?_prefix h hch]
      show dropLeading chars fuel ((ch ++ (pad.flatten ++ q)).drop ch.length) = q
      rw [List.drop_left, ih htail (by omega)]

/-- There are no more characters than bytes, so the loop comes to their end. -/
theorem length_le_flatten {pad : List Bytes} (h : ∀ ch ∈ pad, ch ≠ []) :
    pad.length ≤ pad.flatten.length := by
  induction pad with
  | nil => exact Nat.le_refl 0
  | cons ch pad ih =>
    have hpos := List.length_pos_iff.mpr (h ch List.mem_cons_self)
    have htail := ih (fun a ha => h a (List.mem_cons_of_mem _ ha))
    rw [List.flatten_cons, List.length_append, List.length_cons]
    omega

/-- A string that begins with a capital letter begins with no whitespace. -/
theorem not_prefix_of_uppercase {chars : List Bytes}
    (h : ∀ ch ∈ chars, ∀ b ∈ ch.head?, isAsciiUppercase b = false) (hne : [] ∉ chars) {b : UInt8}
    (hb : isAsciiUppercase b) (rest : Str) : ∀ ch ∈ chars, ch.isPrefixOf (b :: rest) = false := by
  intro ch hch
  cases ch with
  | nil => exact absurd hch hne
  | cons a ch =>
    have ha := h _ hch a rfl
    rw [List.isPrefixOf_cons_cons]
    have hab : (a == b) = false := by
      rw [beq_eq_false_iff_ne]
      rintro rfl
      rw [hb] at ha
      cases ha
    rw [hab, Bool.false_and]

/-- **Whitespace around capital letters is trimmed**, from the front and then, on the reversed
bytes, from the back. Both loops stop at a letter. -/
theorem trimBytes_padded {q : Str} (hne : q ≠ []) (hq : q.all isAsciiUppercase)
    {pad pad' : List Bytes} (hpad : ∀ ch ∈ pad, ch ∈ whitespace)
    (hpad' : ∀ ch ∈ pad', ch ∈ whitespace) :
    trimBytes (pad.flatten ++ q ++ pad'.flatten) = q := by
  have hupper : ∀ b ∈ q, isAsciiUppercase b := List.all_eq_true.mp hq
  have hfront : ∀ ch ∈ whitespace, ch.isPrefixOf (q ++ pad'.flatten) = false := by
    obtain ⟨b, rest, rfl⟩ := List.exists_cons_of_ne_nil hne
    exact not_prefix_of_uppercase (by decide +kernel) (by decide +kernel)
      (hupper b List.mem_cons_self) _
  -- the last letter is met first from the back
  have hback : ∀ ch ∈ whitespace.map List.reverse, ch.isPrefixOf q.reverse = false := by
    obtain ⟨b, rest, hrev⟩ := List.exists_cons_of_ne_nil (List.reverse_ne_nil_iff.mpr hne)
    rw [hrev]
    refine not_prefix_of_uppercase (by decide +kernel) (by decide +kernel) (hupper b ?_) _
    exact List.mem_reverse.mp (hrev ▸ List.mem_cons_self)
  have hnonempty : ∀ {p : List Bytes}, (∀ ch ∈ p, ch ∈ whitespace) → ∀ ch ∈ p, ch ≠ [] :=
    fun h ch hch => (prefixFree_whitespace ch (h ch hch)).1
  have hdrop : dropLeading whitespace (pad.flatten ++ q ++ pad'.flatten).length
      (pad.flatten ++ q ++ pad'.flatten) = q ++ pad'.flatten := by
    have hlen := length_le_flatten (hnonempty hpad)
    rw [List.append_assoc]
    refine dropLeading_pad prefixFree_whitespace hfront hpad ?_
    rw [List.length_append]
    omega
  have hreverse : (q ++ pad'.flatten).reverse
      = (pad'.map List.reverse).reverse.flatten ++ q.reverse := by
    rw [List.reverse_append, List.reverse_flatten]
  have hlen := length_le_flatten (hnonempty hpad')
  rw [trimBytes, hdrop, hreverse]
  rw [dropLeading_pad prefixFree_reverse_whitespace hback, List.reverse_reverse]
  · intro ch hch
    obtain ⟨a, ha, rfl⟩ := List.mem_map.mp (List.mem_reverse.mp hch)
    exact List.mem_map_of_mem (hpad' a ha)
  · rw [List.length_reverse, List.length_map, List.length_append]
    omega

/-! ## Answers

A stem is a beginning of four letters at least that is too short for an identity. The scan visits
the first 10000 entities, and what it shows of them are those whose identity begins with the
stem. -/

/-- The scan picks from the entities with the least keys. -/
theorem prefixMatches_eq (c : Crates) (s : WarmStorage) (q : Str) :
    ∃ l, OrderedScan.Least numberKey32.number s.getEntity 10000 l ∧
      prefixMatches c s q
        = (l.filter (fun e => q.isPrefixOf (encodeBase26 c e.1))).map Prod.fst := by
  obtain ⟨l, hok, hl⟩ := s.getAllEntityKeys_least 10000
  refine ⟨l, hl, ?_⟩
  rw [prefixMatches, hok]
  exact List.filter_map

theorem not_all_isDigit_of_uppercase {b : UInt8} (hb : isAsciiUppercase b) (q : Str) :
    ¬(b :: q).all isDigit := by
  intro hdigits
  have hdigit := List.all_eq_true.mp hdigits b List.mem_cons_self
  simp only [isDigit, isAsciiUppercase, decide_eq_true_eq, UInt8.le_iff_toNat_le] at hb hdigit
  have h57 : b.toNat ≤ 57 := hdigit.2
  have h65 : 65 ≤ b.toNat := hb.1
  omega

/-- A stem is neither a number nor a hash nor a whole identity. -/
theorem queries_of_stem {c : Crates} {s : WarmStorage} {q : Str} (hq : IsStem q) :
    queryTick q = none ∧ queryHash c q = none ∧ queryEntity c s q = none := by
  obtain ⟨hlong, hshort, hupper⟩ := hq
  have hdigits : ¬q.all isDigit := by
    cases q with
    | nil => simp at hlong
    | cons b q =>
      exact not_all_isDigit_of_uppercase (List.all_eq_true.mp hupper b List.mem_cons_self) q
  refine ⟨if_neg hdigits, if_neg ?_, if_neg ?_⟩
  · rintro ⟨h, -⟩
    omega
  · rintro ⟨h, -⟩
    omega

/-- What a search for a stem answers: `found` are the entities it shows. -/
structure StemAnswer (c : Crates) (s : WarmStorage) (q : Str) (query : Str)
    (found : List (Key32 × Bytes)) : Prop where
  /-- Only entities whose identity begins with the stem, each with a document of its own. -/
  sound : ∀ key data, (key, data) ∈ found →
    s.getEntity key = some data ∧ IsEntity c key data ∧ q <+: encodeBase26 c key
  increasing : found.Pairwise (fun a b => numberKey32.number a.1 < numberKey32.number b.1)
  /-- None is missing, unless ten thousand keys come before it. -/
  complete : ∀ key data, s.getEntity key = some data → q <+: encodeBase26 c key →
    (key, data) ∈ found ∨ ∃ before : List (Key32 × Bytes), before.length = 10000 ∧
      before.Pairwise (fun a b => numberKey32.number a.1 < numberKey32.number b.1) ∧
      ∀ e ∈ before, s.getEntity e.1 = some e.2 ∧ numberKey32.number e.1 < numberKey32.number key
  rest : Rest.search c s query = .json (if found = [] then .object [("results", .array [])]
    else Rest.entityResults (found.map (fun e => Rest.shownEntity c s e.1)))
  /-- The RPC leaves out documents that do not parse. -/
  rpc : Rpc.search c s (stringParams query) = .ok (.object [("results", .array
    (found.filterMap (fun e => (storedDoc c (some e.2)).map (Rpc.searchResult "entity"))))])

/-- **What a search for a beginning shows**, through REST and through the RPC: the entities among
those visited whose identity begins so. The other interpretations of the query find nothing. -/
theorem search_stem {c : Crates} {P : Bytes → Prop} {s : WarmStorage} (h : WellKeyed c P s)
    {q query : Str} (hq : IsStem q) (hquery : trimBytes query = q) :
    ∃ found, StemAnswer c s q query found := by
  obtain ⟨htick, hhash, hentity⟩ := queries_of_stem (c := c) (s := s) hq
  obtain ⟨l, hl, hmatches⟩ := prefixMatches_eq c s q
  have hne : q.isEmpty = false := by
    cases q with
    | nil => exact absurd hq.1 (by decide)
    | cons b q => rfl
  let found := l.filter (fun e => q.isPrefixOf (encodeBase26 c e.1))
  have hget : ∀ e ∈ found, s.getEntity e.1 = some e.2 :=
    fun e he => hl.held e.1 e.2 (List.mem_filter.mp he).1
  refine ⟨found, ⟨fun key data hmem => ?_, ?_, fun key data hkey hprefix => ?_, ?_, ?_⟩⟩
  · have hkey := hget _ hmem
    exact ⟨hkey, (Indexer.lookupsKeyed_of_wellKeyed h).entity key data hkey,
      List.isPrefixOf_iff_prefix.mp (List.mem_filter.mp hmem).2⟩
  · exact hl.increasing.sublist List.filter_sublist
  · -- an entity with this beginning is found, unless the scan has stopped before it
    by_cases hmem : (key, data) ∈ l
    · exact .inl (List.mem_filter.mpr ⟨hmem, List.isPrefixOf_iff_prefix.mpr hprefix⟩)
    · refine .inr ⟨l, hl.cut key data hkey hmem, hl.increasing, fun e he => ?_⟩
      exact ⟨hl.held e.1 e.2 he, hl.least key data hkey hmem e he⟩
  · have hresults : Rest.searchEntitiesByPrefix c s q
        = found.map (fun e => Rest.shownEntity c s e.1) := by
      rw [Rest.searchEntitiesByPrefix, hmatches, List.map_map]
      rfl
    simp only [Rest.search, hquery, hne, htick, hhash, hentity, if_pos hq, hresults]
    cases found with
    | nil => rfl
    | cons e found => rfl
  · rw [Rpc.search, Rpc.extractStringParam_stringParams, ok_bind]
    simp only [hquery, hne, Rpc.searchResults, htick, hhash, hentity, if_pos hq, hmatches]
    have hresults : (found.map Prod.fst).filterMap
        (fun key => (storedDoc c (s.getEntity key)).map (Rpc.searchResult "entity"))
        = found.filterMap (fun e => (storedDoc c (some e.2)).map (Rpc.searchResult "entity")) := by
      rw [List.filterMap_map]
      refine List.filterMap_congr (fun e he => ?_)
      rw [Function.comp_apply, hget e he]
    rw [hresults]
    rfl

/-- A whole identity is neither a number, nor a hash, nor a stem. -/
theorem queries_of_identity {c : Crates} {q : Str} (hlen : q.length = 60)
    (hq : q.all isAsciiUppercase) : queryTick q = none ∧ queryHash c q = none ∧ ¬IsStem q := by
  have hdigits : ¬q.all isDigit := by
    cases q with
    | nil => simp at hlen
    | cons b q =>
      exact not_all_isDigit_of_uppercase (List.all_eq_true.mp hq b List.mem_cons_self) q
  refine ⟨if_neg hdigits, if_neg ?_, ?_⟩
  · rintro ⟨h, -⟩
    omega
  · rintro ⟨-, h, -⟩
    omega

/-- What a search for a whole identity answers: the entity's document, where there is one. -/
structure IdentityAnswer (c : Crates) (s : WarmStorage) (key : Key32) (query : Str) : Prop where
  rest : Rest.search c s query = .json (match storedDoc c (s.getEntity key) with
    | some v => Rest.entityResults [v]
    | none => .object [("results", .array [])])
  rpc : Rpc.search c s (stringParams query) = .ok (.object [("results", .array
    ((storedDoc c (s.getEntity key)).map (Rpc.searchResult "entity")).toList)])

/-- **What a search for an identity shows.** -/
theorem search_identity {c : Crates} {s : WarmStorage} {key : Key32} {query : Str}
    (hquery : trimBytes query = encodeBase26 c key) : IdentityAnswer c s key query := by
  have hlen : (encodeBase26 c key).length = 60 := length_encodeBase26 c key
  have hupper : (encodeBase26 c key).all isAsciiUppercase :=
    List.all_eq_true.mpr (letters_encodeBase26 c key)
  obtain ⟨htick, hhash, hstem⟩ := queries_of_identity (c := c) hlen hupper
  have hentity : queryEntity c s (encodeBase26 c key) = storedDoc c (s.getEntity key) := by
    rw [queryEntity, if_pos ⟨hlen, hupper⟩, decodeBase26_encodeBase26, Option.bind_some]
  have hne : (encodeBase26 c key).isEmpty = false := by
    rw [List.isEmpty_eq_false_iff, ← List.length_pos_iff, hlen]
    decide
  constructor
  · simp only [Rest.search, hquery, hne, htick, hhash, hentity, if_neg hstem]
    cases storedDoc c (s.getEntity key) <;> rfl
  · rw [Rpc.search, Rpc.extractStringParam_stringParams, ok_bind]
    simp only [hquery, hne, Rpc.searchResults, htick, hhash, hentity, if_neg hstem]
    cases storedDoc c (s.getEntity key) <;> rfl

def burnDocs : Crates :=
  (Crates.ofKnown { values := [(burnEntity.json, burnEntity.document)], k12 := [burnChecksum] })
    |>.withRecords [burnEntity] [] []

def burnStore : Indexer :=
  Indexer.run burnDocs (Indexer.new .empty {}) [(.entity, burnEntity.json)]

end Qonduit
