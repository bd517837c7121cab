import BlackButton.Lib.Assoc
import BlackButton.Lib.Text

/-!
# Plugin options (`plugin/PluginOptions.kt`)

A `PluginOptions` is a `HashMap` with an id, printed as `id;key=value;key`, with `\`
before `\`, `=` and `;`. The order in which a `HashMap` iterates is a parameter
(`HashOrder`).

* `readTokens_tokens`: reading the tokens is reading the characters.
* `parse_toString`: **printed options are read back**, with their id
  (`parse_toString`) or without it (`parseWith_toString`).
* `round_trip`: both together, for the options that can be written and for those that
  were read from a string.
-/

namespace BlackButton

open Text

/-- `PluginOptions`. -/
structure PluginOptions where
  id : Str
  entries : List (Str × Option Str)
  nodup : (Assoc.keys entries).Nodup

/-- The order in which a map with these entries, put in this order, iterates. -/
structure HashOrder where
  order : List (Str × Option Str) → List (Str × Option Str)
  perm : ∀ m, (order m).Perm m

/-- The order in which the entries were put. -/
def HashOrder.insertion : HashOrder := ⟨fun m => m, fun _ => List.Perm.refl _⟩

namespace PluginOptions

/-- `PluginOptions()`. -/
def new : PluginOptions := ⟨[], [], List.nodup_nil⟩

/-- `put`. -/
def put (o : PluginOptions) (k : Str) (v : Option Str) : PluginOptions :=
  ⟨o.id, Assoc.put o.entries k v, Assoc.nodup_put o.nodup k v⟩

/-- The same options with another id. -/
def withId (o : PluginOptions) (id : Str) : PluginOptions := { o with id := id }

/-- `equals`. -/
def Equals (o o' : PluginOptions) : Prop :=
  o.id = o'.id ∧ ∀ k, Assoc.get o.entries k = Assoc.get o'.entries k

/-- The delimiters of the tokenizer. -/
def isDelim (c : Char) : Bool := c = '\\' || c = '=' || c = ';'

/-- The token `;`: what was read is an entry, a key without value, or the id. -/
def endEntry (o : PluginOptions) (key : Option Str) (current : Str) (parseId : Bool) : PluginOptions :=
  match key with
  | some k => o.put k (some current)
  | none =>
    if current = [] then o
    else if parseId then o.withId current else o.put current none

/-- The loop over the tokens; `none` is the exception of `nextToken`. -/
def readTokens : List Str → Str → Option Str → Bool → PluginOptions → Option PluginOptions
  | [], _, _, _, o => some o
  | t :: ts, current, key, parseId, o =>
    if t = ['\\'] then
      match ts with
      | [] => none
      | u :: us => readTokens us (current ++ u) key parseId o
    else if t = ['='] then
      match key with
      | none => readTokens ts [] (some current) parseId o
      | some k => readTokens ts (current ++ t) (some k) parseId o
    else if t = [';'] then readTokens ts [] none false (endEntry o key current parseId)
    else readTokens ts (current ++ t) key parseId o

/-- The private constructor; `none` is an exception (no control characters are allowed). -/
def read (options : Option Str) (parseId : Bool) : Option PluginOptions :=
  match options with
  | none => some new
  | some s =>
    if s = [] then some new
    else if s.all (fun c => !isISOControl c) then
      readTokens (tokens isDelim (s ++ [';'])) [] none parseId new
    else none

/-- `PluginOptions(options)`. -/
def parse (options : Option Str) : Option PluginOptions := read options true

/-- `PluginOptions(id, options)`. -/
def parseWith (id : Str) (options : Option Str) : Option PluginOptions :=
  (read options false).map (·.withId id)

/-- `append`. -/
def escape (s : Str) : Str := s.flatMap fun c => if isDelim c then ['\\', c] else [c]

/-- The text of an entry. -/
def printEntry (e : Str × Option Str) : Str :=
  escape e.1 ++ (match e.2 with
    | none => []
    | some v => '=' :: escape v)

/-- `toString(trimId)`. -/
def toString (H : HashOrder) (trimId : Bool) (o : PluginOptions) : Str :=
  if !trimId && o.id = [] then []
  else
    (H.order o.entries).foldl
      (fun result e => (if result = [] then result else result ++ [';']) ++ printEntry e)
      (if trimId then [] else escape o.id)

/-! ## Reading characters -/

/-- The loop over the characters: after `\`, any character stands for itself. -/
def readChars : Str → Str → Option Str → Bool → PluginOptions → Option PluginOptions
  | [], _, _, _, o => some o
  | c :: cs, current, key, parseId, o =>
    if c = '\\' then
      match cs with
      | [] => none
      | d :: ds => readChars ds (current ++ [d]) key parseId o
    else if c = '=' then
      match key with
      | none => readChars cs [] (some current) parseId o
      | some k => readChars cs (current ++ [c]) (some k) parseId o
    else if c = ';' then readChars cs [] none false (endEntry o key current parseId)
    else readChars cs (current ++ [c]) key parseId o

section Loop

variable (current : Str) (key : Option Str) (parseId : Bool) (o : PluginOptions)

theorem readTokens_slash (u : Str) (us : List Str) :
    readTokens (['\\'] :: u :: us) current key parseId o = readTokens us (current ++ u) key parseId o := rfl

theorem readTokens_text {t : Str} (h : t.any isDelim = false) (ts : List Str) :
    readTokens (t :: ts) current key parseId o = readTokens ts (current ++ t) key parseId o := by
  have hne : ∀ c, isDelim c = true → t ≠ [c] := by
    rintro c hc rfl
    simp [hc] at h
  rw [readTokens.eq_def]
  simp only [hne '\\' rfl, hne '=' rfl, hne ';' rfl, if_false]

theorem readChars_slash (d : Char) (ds : Str) :
    readChars ('\\' :: d :: ds) current key parseId o = readChars ds (current ++ [d]) key parseId o := rfl

theorem readChars_key (cs : Str) :
    readChars ('=' :: cs) current none parseId o = readChars cs [] (some current) parseId o := by
  rw [readChars.eq_def]
  rfl

theorem readChars_end (cs : Str) :
    readChars (';' :: cs) current key parseId o =
      readChars cs [] none false (endEntry o key current parseId) := by
  rw [readChars.eq_def]
  rfl

theorem readChars_text {c : Char} (h : isDelim c = false) (cs : Str) :
    readChars (c :: cs) current key parseId o = readChars cs (current ++ [c]) key parseId o := by
  have hne : ∀ d, isDelim d = true → c ≠ d := by
    rintro d hd rfl
    rw [h] at hd
    cases hd
  rw [readChars.eq_def]
  simp only [hne '\\' rfl, hne '=' rfl, hne ';' rfl, if_false]

theorem readTokens_end (ts : List Str) :
    readTokens ([';'] :: ts) current key parseId o =
      readTokens ts [] none false (endEntry o key current parseId) := by
  rw [readTokens.eq_def]
  rfl

/-- The first `=` of an entry ends its key, another one is part of its value. -/
theorem readTokens_key (ts : List Str) :
    readTokens (['='] :: ts) current key parseId o =
      match key with
      | none => readTokens ts [] (some current) parseId o
      | some k => readTokens ts (current ++ ['=']) (some k) parseId o := by
  rw [readTokens.eq_def]
  rfl

/-- A character that is not a delimiter is appended, whether or not a run follows it. -/
theorem readTokens_char {c : Char} (h : isDelim c = false) (cs : Str) :
    readTokens (tokens isDelim (c :: cs)) current key parseId o =
      readTokens (tokens isDelim cs) (current ++ [c]) key parseId o := by
  rcases tokens_text h cs with ht | ⟨t, ts, hcs, ht, hc⟩
  · rw [ht, readTokens_text _ _ _ _ (by simp [h])]
  · rw [hc, hcs, readTokens_text _ _ _ _ (by simpa [h] using ht), readTokens_text _ _ _ _ ht,
      List.append_assoc]
    rfl

/-- The same after `\`. -/
theorem readTokens_escaped (c : Char) (cs : Str) :
    readTokens (['\\'] :: tokens isDelim (c :: cs)) current key parseId o =
      readTokens (tokens isDelim cs) (current ++ [c]) key parseId o := by
  by_cases h : isDelim c = true
  · rw [tokens_delim h, readTokens_slash]
  · have h' : isDelim c = false := by simpa using h
    rcases tokens_text h' cs with ht | ⟨t, ts, hcs, ht, hc⟩
    · rw [ht, readTokens_slash]
    · rw [hc, hcs, readTokens_slash, readTokens_text _ _ _ _ ht, List.append_assoc]
      rfl

end Loop

/-- **Reading the tokens is reading the characters.** -/
theorem readTokens_tokens (s current : Str) (key : Option Str) (parseId : Bool) (o : PluginOptions) :
    readTokens (tokens isDelim s) current key parseId o = readChars s current key parseId o := by
  induction s, current, key, parseId, o using readChars.induct with
  | case1 current key parseId o => rfl
  | case2 current key parseId o => rfl
  | case3 current key parseId o d ds ih =>
    rw [tokens_delim (by decide), readTokens_escaped, ih, readChars_slash]
  | case4 cs current parseId o hc ih =>
    rw [tokens_delim (by decide), readTokens_key, readChars_key]
    exact ih
  | case5 cs current parseId o hc k ih =>
    rw [tokens_delim (by decide), readTokens_key, readChars.eq_def]
    exact ih
  | case6 cs current key parseId o h1 h2 ih =>
    rw [tokens_delim (by decide), readTokens_end, readChars_end]
    exact ih
  | case7 c cs current key parseId o h1 h2 h3 ih =>
    have hc : isDelim c = false := by simp [isDelim, h1, h2, h3]
    rw [readTokens_char _ _ _ _ hc, ih, readChars_text _ _ _ _ hc]

/-! ## Printed options -/

theorem readChars_escape (x rest : Str) (current : Str) (key : Option Str) (parseId : Bool)
    (o : PluginOptions) :
    readChars (escape x ++ rest) current key parseId o =
      readChars rest (current ++ x) key parseId o := by
  induction x generalizing current with
  | nil => simp [escape]
  | cons c x ih =>
    have hesc : escape (c :: x) = (if isDelim c then ['\\', c] else [c]) ++ escape x := by
      simp [escape]
    rw [hesc, List.append_assoc]
    by_cases h : isDelim c = true
    · rw [if_pos h, List.cons_append, List.cons_append, List.nil_append, readChars_slash, ih,
        List.append_assoc]
      rfl
    · rw [if_neg h, List.cons_append, List.nil_append, readChars_text _ _ _ _ (by simpa using h), ih,
        List.append_assoc]
      rfl

/-- An entry that is written so that it can be read: the empty key has a value. -/
def Writable (e : Str × Option Str) : Prop := e.1 ≠ [] ∨ e.2 ≠ none

theorem readChars_entry {e : Str × Option Str} (h : Writable e) (rest : Str) (o : PluginOptions) :
    readChars (printEntry e ++ ';' :: rest) [] none false o = readChars rest [] none false (o.put e.1 e.2) := by
  obtain ⟨k, v⟩ := e
  unfold printEntry
  cases v with
  | none =>
    have hk : k ≠ [] := by
      rcases h with h | h
      · exact h
      · exact absurd rfl h
    simp only [List.append_nil]
    rw [readChars_escape, readChars_end, List.nil_append]
    simp only [endEntry, hk, if_false, Bool.false_eq_true]
  | some v =>
    simp only
    rw [List.append_assoc, readChars_escape, List.cons_append, readChars_key, readChars_escape,
      readChars_end]
    rfl

/-- The text of entries, each followed by `;`. -/
def printEntries (es : List (Str × Option Str)) : Str := es.flatMap (fun e => printEntry e ++ [';'])

theorem readChars_entries {es : List (Str × Option Str)} (h : ∀ e ∈ es, Writable e) (o : PluginOptions) :
    readChars (printEntries es) [] none false o = some (es.foldl (fun o e => o.put e.1 e.2) o) := by
  induction es generalizing o with
  | nil => rfl
  | cons e es ih =>
    have hsplit : printEntries (e :: es) = printEntry e ++ ';' :: printEntries es := by
      simp [printEntries]
    rw [hsplit, readChars_entry (h e List.mem_cons_self),
      ih (fun x hx => h x (List.mem_cons_of_mem e hx))]
    rfl

/-- Entries with new keys are appended. -/
theorem foldl_put {es : List (Str × Option Str)} (o : PluginOptions)
    (hnd : (Assoc.keys (o.entries ++ es)).Nodup) :
    (es.foldl (fun o e => o.put e.1 e.2) o).entries = o.entries ++ es ∧
      (es.foldl (fun o e => o.put e.1 e.2) o).id = o.id := by
  induction es generalizing o with
  | nil => simp
  | cons e es ih =>
    have hfresh : e.1 ∉ Assoc.keys o.entries := by
      intro hm
      rw [Assoc.keys, List.map_append, List.nodup_append] at hnd
      exact hnd.2.2 e.1 hm e.1 (by simp) rfl
    have hput : (o.put e.1 e.2).entries = o.entries ++ [e] := Assoc.put_of_not_mem hfresh e.2
    have := ih (o.put e.1 e.2) (by rw [hput, List.append_assoc]; exact hnd)
    rw [List.foldl_cons, this.1, this.2, hput, List.append_assoc]
    exact ⟨rfl, rfl⟩

/-- `toString` after a text that is not empty. -/
theorem foldl_printEntry {es : List (Str × Option Str)} (h : ∀ e ∈ es, Writable e) {result : Str}
    (hr : result ≠ []) :
    es.foldl (fun result e => (if result = [] then result else result ++ [';']) ++ printEntry e) result ++
      [';'] = result ++ ';' :: printEntries es := by
  induction es generalizing result with
  | nil => simp [printEntries]
  | cons e es ih =>
    have hne : (result ++ [';']) ++ printEntry e ≠ [] := by simp
    rw [List.foldl_cons, if_neg hr, ih (fun x hx => h x (List.mem_cons_of_mem e hx)) hne]
    simp [printEntries]

theorem printEntry_ne_nil {e : Str × Option Str} (h : Writable e) : printEntry e ≠ [] := by
  obtain ⟨k, v⟩ := e
  cases v with
  | none =>
    intro hp
    simp only [printEntry, List.append_nil] at hp
    have hk : k ≠ [] := by
      rcases h with h | h
      · exact h
      · exact absurd rfl h
    cases k with
    | nil => exact hk rfl
    | cons c k =>
      have hesc : escape (c :: k) = (if isDelim c then ['\\', c] else [c]) ++ escape k := by
        simp [escape]
      rw [hesc] at hp
      by_cases hc : isDelim c = true
      · simp [hc] at hp
      · simp [hc] at hp
  | some v => simp [printEntry]

/-- The printed options, with the `;` that reading appends. -/
theorem toString_eq (H : HashOrder) {o : PluginOptions} (h : ∀ e ∈ o.entries, Writable e) :
    (toString H true o ++ [';'] =
      if o.entries = [] then [';'] else printEntries (H.order o.entries)) ∧
    (o.id ≠ [] → toString H false o ++ [';'] = escape o.id ++ ';' :: printEntries (H.order o.entries)) := by
  have hord : ∀ e ∈ H.order o.entries, Writable e := fun e he => h e ((H.perm _).mem_iff.1 he)
  constructor
  · have hunfold : toString H true o = (H.order o.entries).foldl
        (fun result e => (if result = [] then result else result ++ [';']) ++ printEntry e) [] := rfl
    rw [hunfold]
    cases hes : H.order o.entries with
    | nil =>
      have hnil : o.entries = [] := by
        have := H.perm o.entries
        rw [hes] at this
        exact this.symm.eq_nil
      rw [if_pos hnil]
      rfl
    | cons e es =>
      rw [hes] at hord
      have hnil : o.entries ≠ [] := by
        intro hnil
        have := H.perm o.entries
        rw [hes, hnil] at this
        exact absurd this.eq_nil (by simp)
      have hne := printEntry_ne_nil (hord e List.mem_cons_self)
      rw [if_neg hnil, List.foldl_cons, if_pos rfl, List.nil_append,
        foldl_printEntry (fun x hx => hord x (List.mem_cons_of_mem e hx)) hne]
      simp [printEntries]
  · intro hid
    have hunfold : toString H false o = (H.order o.entries).foldl
        (fun result e => (if result = [] then result else result ++ [';']) ++ printEntry e)
        (escape o.id) := by
      simp [toString, hid]
    have hesc : escape o.id ≠ [] := by
      have := printEntry_ne_nil (e := (o.id, none)) (Or.inl hid)
      simpa [printEntry] using this
    rw [hunfold, foldl_printEntry hord hesc]

/-- Options that can be written, with characters that satisfy `p` only. -/
structure Over (p : Char → Prop) (o : PluginOptions) : Prop where
  id : ∀ c ∈ o.id, p c
  key : ∀ e ∈ o.entries, ∀ c ∈ e.1, p c
  value : ∀ e ∈ o.entries, ∀ v, e.2 = some v → ∀ c ∈ v, p c
  writable : ∀ e ∈ o.entries, Writable e

/-- No control characters, and no empty key without value. -/
abbrev Printable (o : PluginOptions) : Prop := Over (fun c => isISOControl c = false) o

theorem Printable.perm {o o' : PluginOptions} (h : Printable o) (hid : o'.id = o.id)
    (hp : o'.entries.Perm o.entries) : Printable o' where
  id := by rw [hid]; exact h.id
  key e he := h.key e (hp.mem_iff.1 he)
  value e he := h.value e (hp.mem_iff.1 he)
  writable e he := h.writable e (hp.mem_iff.1 he)

theorem mem_escape {s : Str} {c : Char} (h : c ∈ escape s) : c ∈ s ∨ c = '\\' := by
  unfold escape at h
  rw [List.mem_flatMap] at h
  obtain ⟨d, hd, hc⟩ := h
  by_cases hdel : isDelim d = true
  · rw [if_pos hdel, List.mem_cons, List.mem_singleton] at hc
    rcases hc with hc | rfl
    · exact Or.inr hc
    · exact Or.inl hd
  · rw [if_neg hdel, List.mem_singleton] at hc
    exact Or.inl (hc ▸ hd)

theorem Over.entries_text {p : Char → Prop} (hp : ∀ c ∈ ['\\', '=', ';'], p c) {o : PluginOptions} (h : Over p o)
    (es : List (Str × Option Str)) (hes : ∀ e ∈ es, e ∈ o.entries) : ∀ c ∈ printEntries es, p c := by
  intro c hc
  unfold printEntries at hc
  rw [List.mem_flatMap] at hc
  obtain ⟨e, he, hc⟩ := hc
  rw [List.mem_append, List.mem_singleton] at hc
  rcases hc with hc | rfl
  · unfold printEntry at hc
    rw [List.mem_append] at hc
    rcases hc with hc | hc
    · rcases mem_escape hc with hc | rfl
      · exact h.key e (hes e he) c hc
      · exact hp _ (by simp)
    · cases hv : e.2 with
      | none => simp [hv] at hc
      | some v =>
        simp only [hv, List.mem_cons] at hc
        rcases hc with rfl | hc
        · exact hp _ (by simp)
        · rcases mem_escape hc with hc | rfl
          · exact h.value e (hes e he) v hv c hc
          · exact hp _ (by simp)
  · exact hp _ (by simp)

/-- A printed text has the characters of the options, and delimiters. -/
theorem Over.text {p : Char → Prop} (hp : ∀ c ∈ ['\\', '=', ';'], p c) {o : PluginOptions} (h : Over p o)
    (H : HashOrder) (trimId : Bool) : ∀ c ∈ toString H trimId o, p c := by
  have hes := h.entries_text hp (H.order o.entries) (fun e he => (H.perm _).mem_iff.1 he)
  obtain ⟨htrim, hfull⟩ := toString_eq H h.writable
  intro c hc
  have hmem : c ∈ toString H trimId o ++ [';'] := List.mem_append_left _ hc
  cases trimId with
  | true =>
    rw [htrim] at hmem
    split at hmem
    · rw [List.mem_singleton] at hmem
      rw [hmem]
      exact hp _ (by simp)
    · exact hes c hmem
  | false =>
    by_cases hid : o.id = []
    · simp [toString, hid] at hc
    · rw [hfull hid, List.mem_append, List.mem_cons] at hmem
      rcases hmem with hmem | rfl | hmem
      · rcases mem_escape hmem with hmem | rfl
        · exact h.id c hmem
        · exact hp _ (by simp)
      · exact hp _ (by simp)
      · exact hes c hmem

/-- A printed text has no control characters. -/
theorem Printable.text {o : PluginOptions} (h : Printable o) (H : HashOrder) (trimId : Bool) :
    ∀ c ∈ toString H trimId o, isISOControl c = false :=
  Over.text (forall_mem_of_all (by decide)) h H trimId

/-- Reading a text without control characters. -/
theorem read_text {s : Str} (hs : ∀ c ∈ s, isISOControl c = false) (parseId : Bool) :
    read (some s) parseId = if s = [] then some new else readChars (s ++ [';']) [] none parseId new := by
  have hall : s.all (fun c => !isISOControl c) = true := by
    rw [List.all_eq_true]
    intro c hc
    simp [hs c hc]
  unfold read
  simp only [hall, if_true, readTokens_tokens]

/-- **Options printed without their id are read back.** -/
theorem parseWith_toString (H : HashOrder) {o : PluginOptions} (h : Printable o) :
    ∃ o', parseWith o.id (some (toString H true o)) = some o' ∧ o'.id = o.id ∧
      o'.entries.Perm o.entries := by
  obtain ⟨htrim, -⟩ := toString_eq H h.writable
  have hord : ∀ e ∈ H.order o.entries, Writable e := fun e he => h.writable e ((H.perm _).mem_iff.1 he)
  have hnd : (Assoc.keys (new.entries ++ H.order o.entries)).Nodup :=
    ((H.perm o.entries).map Prod.fst).nodup_iff.2 o.nodup
  unfold parseWith
  rw [read_text (h.text H true)]
  by_cases hnil : o.entries = []
  · have htext : toString H true o = [] := by
      rw [if_pos hnil] at htrim
      simpa using htrim
    rw [if_pos htext]
    exact ⟨_, rfl, rfl, by rw [hnil]; exact List.Perm.refl _⟩
  · have htext : toString H true o ≠ [] := by
      intro ht
      rw [if_neg hnil, ht] at htrim
      cases hes : H.order o.entries with
      | nil =>
        have := H.perm o.entries
        rw [hes] at this
        exact hnil this.symm.eq_nil
      | cons e es =>
        have hne := printEntry_ne_nil (hord e (by rw [hes]; exact List.mem_cons_self))
        have hlen := congrArg List.length htrim
        rw [hes] at hlen
        have hpos : 0 < (printEntry e).length := List.length_pos_of_ne_nil hne
        simp only [printEntries, List.flatMap_cons, List.length_append, List.length_singleton,
          List.length_nil] at hlen
        omega
    rw [if_neg htext, htrim, if_neg hnil, readChars_entries hord]
    obtain ⟨hentries, -⟩ := foldl_put new hnd
    have hperm : ((H.order o.entries).foldl (fun o e => o.put e.1 e.2) new).entries.Perm o.entries := by
      rw [hentries]
      exact H.perm o.entries
    exact ⟨_, rfl, rfl, hperm⟩

/-- **Options printed with their id are read back.** -/
theorem parse_toString (H : HashOrder) {o : PluginOptions} (h : Printable o) (hid : o.id ≠ []) :
    ∃ o', parse (some (toString H false o)) = some o' ∧ o'.id = o.id ∧ o'.entries.Perm o.entries := by
  obtain ⟨-, hfull⟩ := toString_eq H h.writable
  have hord : ∀ e ∈ H.order o.entries, Writable e := fun e he => h.writable e ((H.perm _).mem_iff.1 he)
  have hnd : (Assoc.keys ((new.withId o.id).entries ++ H.order o.entries)).Nodup :=
    ((H.perm o.entries).map Prod.fst).nodup_iff.2 o.nodup
  have htext : toString H false o ≠ [] := by
    intro ht
    have hlen := congrArg List.length (hfull hid)
    have hpos : 0 < (escape o.id).length := by
      have := printEntry_ne_nil (e := (o.id, none)) (Or.inl hid)
      exact List.length_pos_of_ne_nil (by simpa [printEntry] using this)
    rw [ht] at hlen
    simp only [List.length_append, List.length_cons, List.length_nil] at hlen
    omega
  have hend : endEntry new none o.id true = new.withId o.id := by
    simp [endEntry, hid]
  unfold parse
  rw [read_text (h.text H false), if_neg htext, hfull hid, readChars_escape, List.nil_append,
    readChars_end, hend, readChars_entries hord]
  obtain ⟨hentries, hid'⟩ := foldl_put (new.withId o.id) hnd
  exact ⟨_, rfl, hid', by rw [hentries]; exact H.perm o.entries⟩

theorem Equals.of_perm {o o' : PluginOptions} (hid : o'.id = o.id) (hp : o'.entries.Perm o.entries) :
    Equals o' o :=
  ⟨hid, fun k => Assoc.get_perm hp o'.nodup k⟩

/-! ## What reading produces -/

theorem over_new (p : Char → Prop) : Over p new :=
  ⟨by simp [new], by simp [new], by simp [new], by simp [new]⟩

theorem Over.put {p : Char → Prop} {o : PluginOptions} (h : Over p o) {k : Str} {v : Option Str}
    (hk : ∀ c ∈ k, p c) (hv : ∀ x, v = some x → ∀ c ∈ x, p c) (hw : Writable (k, v)) :
    Over p (o.put k v) := by
  have hmem : ∀ e ∈ (o.put k v).entries, e ∈ o.entries ∨ e = (k, v) := by
    intro e he
    exact Assoc.mem_put he
  refine ⟨h.id, ?_, ?_, ?_⟩
  · intro e he
    rcases hmem e he with he | rfl
    · exact h.key e he
    · exact hk
  · intro e he
    rcases hmem e he with he | rfl
    · exact h.value e he
    · exact hv
  · intro e he
    rcases hmem e he with he | rfl
    · exact h.writable e he
    · exact hw

theorem Over.withId {p : Char → Prop} {o : PluginOptions} (h : Over p o) {id : Str} (hid : ∀ c ∈ id, p c) :
    Over p (o.withId id) :=
  ⟨hid, h.key, h.value, h.writable⟩

theorem Over.endEntry {p : Char → Prop} {o : PluginOptions} (h : Over p o) {key : Option Str} {current : Str}
    {parseId : Bool} (hc : ∀ c ∈ current, p c) (hk : ∀ k, key = some k → ∀ c ∈ k, p c) :
    Over p (endEntry o key current parseId) := by
  unfold PluginOptions.endEntry
  cases key with
  | some k =>
    refine h.put (hk k rfl) ?_ (Or.inr (Option.some_ne_none current))
    rintro x ⟨⟩
    exact hc
  | none =>
    simp only
    split
    · exact h
    · rename_i hne
      split
      · exact h.withId hc
      · exact h.put hc (by simp) (Or.inl hne)

theorem Over.readTokens {p : Char → Prop} (ts : List Str) (current : Str) (key : Option Str)
    (parseId : Bool) (o : PluginOptions) {o' : PluginOptions} (ht : ∀ t ∈ ts, ∀ c ∈ t, p c)
    (h : Over p o) (hc : ∀ c ∈ current, p c) (hk : ∀ k, key = some k → ∀ c ∈ k, p c)
    (hr : PluginOptions.readTokens ts current key parseId o = some o') : Over p o' := by
  have happend : ∀ {x y : Str}, (∀ c ∈ x, p c) → (∀ c ∈ y, p c) → ∀ c ∈ x ++ y, p c := by
    intro x y hx hy c hc
    rcases List.mem_append.1 hc with hc | hc
    · exact hx c hc
    · exact hy c hc
  induction ts, current, key, parseId, o using PluginOptions.readTokens.induct with
  | case1 current key parseId o =>
    cases hr
    exact h
  | case2 current key parseId o => cases hr
  | case3 current key parseId o u us ih =>
    rw [readTokens_slash] at hr
    have hu := ht u (by simp)
    exact ih (fun t h' => ht t (by simp [h'])) h (happend hc hu) hk hr
  | case4 ts current parseId o hne ih =>
    rw [readTokens_key] at hr
    refine ih (fun t h' => ht t (by simp [h'])) h (by simp) ?_ hr
    rintro k ⟨⟩
    exact hc
  | case5 ts current parseId o hne k ih =>
    rw [readTokens_key] at hr
    exact ih (fun t h' => ht t (by simp [h'])) h (happend hc (ht _ (by simp))) hk hr
  | case6 ts current key parseId o h1 h2 ih =>
    rw [readTokens_end] at hr
    exact ih (fun t h' => ht t (by simp [h'])) (h.endEntry hc hk) (by simp) (by simp) hr
  | case7 t ts current key parseId o h1 h2 h3 ih =>
    rw [PluginOptions.readTokens.eq_def] at hr
    simp only [h1, h2, h3, if_false] at hr
    exact ih (fun t h' => ht t (by simp [h'])) h (happend hc (ht t (by simp))) hk hr

/-- **What was read can be written**, and has no other characters than the text. -/
theorem over_read {p : Char → Prop} {s : Option Str} {parseId : Bool} {o : PluginOptions}
    (hs : ∀ x, s = some x → ∀ c ∈ x, isISOControl c = false → p c) (hsemi : p ';')
    (h : read s parseId = some o) : Over p o := by
  unfold read at h
  cases s with
  | none =>
    cases h
    exact over_new p
  | some s =>
    simp only at h
    split at h
    · cases h
      exact over_new p
    · split at h
      · rename_i hne hall
        refine Over.readTokens _ _ _ _ _ ?_ (over_new p) (by simp) (by simp) h
        intro t ht c hc
        have hmem := mem_of_mem_tokens ht hc
        rw [List.mem_append, List.mem_singleton] at hmem
        rcases hmem with hmem | rfl
        · have := List.all_eq_true.1 hall c hmem
          exact hs s rfl c hmem (by simpa using this)
        · exact hsemi
      · cases h

/-- Options read by `PluginOptions(options)` can be printed. -/
theorem printable_parse {s : Option Str} {o : PluginOptions} (h : parse s = some o) : Printable o :=
  over_read (fun _ _ _ _ hc => hc) (by decide) h

/-- **Round trip of plugin options.** Options without control characters and without an
empty key that has no value are read back equal, printed without their id or, if it is not
empty, with it. Options read from a string are such options. -/
theorem round_trip (H : HashOrder) :
    (∀ o : PluginOptions, Printable o →
      (∃ o', parseWith o.id (some (toString H true o)) = some o' ∧ Equals o' o) ∧
      (o.id ≠ [] → ∃ o', parse (some (toString H false o)) = some o' ∧ Equals o' o)) ∧
    ∀ (s : Option Str) (o : PluginOptions), parse s = some o → o.id ≠ [] →
      (∃ o', parse (some (toString H false o)) = some o' ∧ Equals o' o) ∧
      ∃ o', parseWith o.id (some (toString H true o)) = some o' ∧ Equals o' o := by
  have hwithout : ∀ o : PluginOptions, Printable o →
      ∃ o', parseWith o.id (some (toString H true o)) = some o' ∧ Equals o' o := by
    intro o ho
    obtain ⟨o', hread, hid, hperm⟩ := parseWith_toString H ho
    exact ⟨o', hread, Equals.of_perm hid hperm⟩
  have hwith : ∀ o : PluginOptions, Printable o → o.id ≠ [] →
      ∃ o', parse (some (toString H false o)) = some o' ∧ Equals o' o := by
    intro o ho hid
    obtain ⟨o', hread, hid', hperm⟩ := parse_toString H ho hid
    exact ⟨o', hread, Equals.of_perm hid' hperm⟩
  constructor
  · intro o ho
    exact ⟨hwithout o ho, hwith o ho⟩
  · intro s o hs hid
    have ho := printable_parse hs
    exact ⟨hwith o ho hid, hwithout o ho⟩

/-- Options with an escaped value and with a key that has no value. -/
def sample : PluginOptions :=
  ((new.withId "v2ray".toList).put "path".toList (some "/a;b=c\\".toList)).put "tls".toList none

theorem printable_sample : Printable sample := by
  have hid : Printable (new.withId "v2ray".toList) := (over_new _).withId (forall_mem_of_all (by decide))
  have hpath : Printable ((new.withId "v2ray".toList).put "path".toList (some "/a;b=c\\".toList)) := by
    refine hid.put (forall_mem_of_all (by decide)) ?_ (Or.inl (by decide))
    rintro x ⟨⟩
    exact forall_mem_of_all (by decide)
  exact hpath.put (forall_mem_of_all (by decide)) (by simp) (Or.inl (by decide))

theorem round_trip_sample :
    ∃ o', parse (some (toString HashOrder.insertion false sample)) = some o' ∧ Equals o' sample ∧
      ∃ o'', parse (some (toString HashOrder.insertion false o')) = some o'' ∧ Equals o'' o' := by
  have hid : sample.id ≠ [] := by decide
  obtain ⟨o', hread, hequals⟩ := ((round_trip HashOrder.insertion).1 sample printable_sample).2 hid
  have hid' : o'.id ≠ [] := by rw [hequals.1]; exact hid
  exact ⟨o', hread, hequals, ((round_trip HashOrder.insertion).2 _ o' hread hid').1⟩

end PluginOptions

end BlackButton
