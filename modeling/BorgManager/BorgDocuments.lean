import BorgManager.JsonLexing
import BorgManager.JsonLimits

namespace BorgManager.BorgDocuments

open JsonGrammar hiding scanOnce scanElements scanMembers rawDecode rawDecode_eq_some loads loads_eq_some
open JsonLexing JsonLimits

/-- The calls that the interpreter still has room for in `json.loads`, and in the
decoder of the loop, which is fewer calls away from the loader. -/
structure Stack where
  loads : Nat
  decoder : Nat
  nearer : loads ≤ decoder

def byteOrderMark : Char := '\uFEFF'

/-- A document is taken for one of Borg's by the keys at its top. -/
def accepts (expected : List Key) : Value → Bool
  | .obj fields => expected.isEmpty || fields.any (fun f => decide (f.1 ∈ expected))
  | _ => expected.isEmpty

/-- The loop over the braces and brackets of a text. -/
def findDocument (room : Nat) (expected : List Key) : List Char → Except Refusal Value
  | [] => .error .malformed
  | c :: rest =>
      if c = '{' ∨ c = '[' then
        match rawDecode room (c :: rest) with
        | .ok (payload, _) => if accepts expected payload then .ok payload else findDocument room expected rest
        | .error .malformed => findDocument room expected rest
        | .error .limit => .error .limit
      else findDocument room expected rest

/-- The text after its byte order marks. -/
def unmarked (output : List Char) : List Char := output.dropWhile (· == byteOrderMark)

/-- `load_borg_json_document`: it catches a `JSONDecodeError`, but not the errors of
the limits. -/
def loadBorgJsonDocument (stack : Stack) (expected : List Key) (output : List Char) : Except Refusal Value :=
  match loads stack.loads (unmarked output) with
  | .ok payload => .ok payload
  | .error .malformed => findDocument stack.decoder expected (unmarked output)
  | .error .limit => .error .limit

def key (s : String) : Key := s.toList.map Char.toNat

/-- The two callers that name the keys they expect. -/
inductive Reader
  | archiveListing
  | borgInfo

def Reader.expectedKeys : Reader → List Key
  | .archiveListing => [key "archives"]
  | .borgInfo => [key "archives", key "archive", key "cache", key "repository", key "encryption", key "stats"]

/-- `payload.get(name)`: of two fields of one name the later one counts. -/
def get (fields : List (Key × Value)) (name : Key) : Option Value := fields.reverse.lookup name

/-- What a parser raises: a `ValueError` with a text of its own, or what the reader
raised at a limit. -/
inductive Rejection
  | message (text : String)
  | limit
deriving DecidableEq

section Parsers

variable {α ρ : Type} (stack : Stack)

/-- `parse_archive_listing`. The rows that are made of the items are not
followed further. -/
def parseArchiveListing (rows : List Value → List α) (output : List Char) : Except Rejection (List α) :=
  match loadBorgJsonDocument stack Reader.archiveListing.expectedKeys output with
  | .error .malformed => .error (.message "Borg returned an invalid archive list")
  | .error .limit => .error .limit
  | .ok (.obj fields) =>
      match (get fields (key "archives")).getD (.arr []) with
      | .arr items => .ok (rows items)
      | _ => .error (.message "Borg archive list has an unexpected structure")
  | .ok _ => .ok (rows [])

/-- `parse_borg_info`, up to the report that is made of the fields. -/
def parseBorgInfo (report : List (Key × Value) → ρ) (output : List Char) : Except Rejection ρ :=
  match loadBorgJsonDocument stack Reader.borgInfo.expectedKeys output with
  | .error .malformed => .error (.message "Borg-Informationsausgabe ist kein gültiges JSON")
  | .error .limit => .error .limit
  | .ok (.obj fields) => .ok (report fields)
  | .ok _ => .error (.message "Borg-Informationsausgabe besitzt eine unerwartete Struktur")

end Parsers

/-- A text is one document with nothing but blanks around it. -/
def IsJson (room : Nat) (text : List Char) : Prop :=
  ∃ v rest, Reads (skip text) (.value v) rest ∧ fits room v = true ∧ skip rest = []

/-- A text of an object with one of the keys. -/
structure IsDocument (expected : List Key) (s : List Char) (fields : List (Key × Value)) : Prop where
  reads : Reads s (.value (.obj fields)) []
  known : ∃ f ∈ fields, f.1 ∈ expected

/-- A text without braces and brackets. -/
def Braceless (p : List Char) : Prop := ∀ c ∈ p, c ≠ '{' ∧ c ≠ '}' ∧ c ≠ '[' ∧ c ≠ ']'

instance (p : List Char) : Decidable (Braceless p) :=
  List.decidableBAll (fun c => c ≠ '{' ∧ c ≠ '}' ∧ c ≠ '[' ∧ c ≠ ']') p

/-- The decoder comes upon an integer that is too long or a nesting that is too deep
before it comes upon an error in the text. -/
def Overruns (room : Nat) (text : List Char) : Prop := rawDecode room text = .error .limit

instance (room : Nat) (text : List Char) : Decidable (Overruns room text) :=
  match h : rawDecode room text with
  | .error .limit => isTrue h
  | .error .malformed => isFalse (fun hover => by rw [Overruns, h] at hover; cases hover)
  | .ok _ => isFalse (fun hover => by rw [Overruns, h] at hover; cases hover)

/-- No brace or bracket in the first text is the start of an overrun. -/
def Clear (room : Nat) (a x : List Char) : Prop :=
  ∀ before c after, a = before ++ c :: after → c = '{' ∨ c = '[' → ¬Overruns room (c :: after ++ x)

/-- Outside its strings a text, which `q` follows, holds a whole object with one of
the keys, and nothing before the object is the start of an overrun. -/
def HoldsDocument (room : Nat) (expected : List Key) (u q : List Char) : Prop :=
  ∃ a t b fields, u = a ++ (t ++ b) ∧ after .outside a = .outside ∧ IsDocument expected t fields ∧
    fits room (.obj fields) = true ∧ Clear room a (t ++ (b ++ q))

variable {stack : Stack} {room : Nat} {expected : List Key} {s : List Char} {fields : List (Key × Value)}

theorem reads_object {t rest : List Char} (h : Reads t (.value (.obj fields)) rest) : ∃ t', t = '{' :: t' := by
  cases h with
  | emptyObject | object => exact ⟨_, rfl⟩
  | scalar h => exact absurd trivial (readScalar_move h).1

theorem findDocument_braceless {p : List Char} (hp : Braceless p) (x : List Char) :
    findDocument room expected (p ++ x) = findDocument room expected x := by
  induction p with
  | nil => rfl
  | cons c p ih =>
      obtain ⟨hbrace, -, hbracket, -⟩ := hp c (List.mem_cons_self ..)
      rw [List.cons_append, findDocument, if_neg (by simp [hbrace, hbracket]),
        ih (fun d hd => hp d (List.mem_cons_of_mem _ hd))]

theorem Clear.cons {c : Char} {a x : List Char} (h : Clear room a x)
    (hc : c = '{' ∨ c = '[' → ¬Overruns room (c :: a ++ x)) :
    Clear room (c :: a) x := by
  intro before d after heq hd
  cases before with
  | nil =>
      obtain ⟨rfl, rfl⟩ := List.cons.inj heq
      exact hc hd
  | cons b before => exact h before d after (List.cons.inj heq).2 hd

theorem Clear.tail {c : Char} {a x : List Char} (h : Clear room (c :: a) x) : Clear room a x :=
  fun before d after heq hd => h (c :: before) d after (by rw [heq, List.cons_append]) hd

theorem findDocument_eq_ok {text : List Char} {payload : Value} (h : findDocument room expected text = .ok payload) :
    ∃ a x rest, text = a ++ x ∧ Reads x (.value payload) rest ∧ fits room payload = true ∧
    accepts expected payload = true ∧
      Clear room a x := by
  induction text with
  | nil => cases h
  | cons c text ih =>
      have hlater (h : findDocument room expected text = .ok payload)
        (hc : c = '{' ∨ c = '[' → ¬Overruns room (c :: text)) :
          ∃ a x rest, c :: text = a ++ x ∧ Reads x (.value payload) rest ∧ fits room payload = true ∧
            accepts expected payload = true ∧ Clear room a x := by
        obtain ⟨a, x, rest, rfl, hread, hfits, haccepts, hclear⟩ := ih h
        exact ⟨c :: a, x, rest, rfl, hread, hfits, haccepts, hclear.cons hc⟩
      rw [findDocument] at h
      split at h
      · cases hanswer : rawDecode room (c :: text) with
        | ok found =>
            rw [hanswer] at h
            dsimp only at h
            split at h
            · next haccepts =>
                cases h
                obtain ⟨hread, hfits⟩ := rawDecode_eq_ok.mp hanswer
                exact ⟨[], _, found.2, rfl, hread, hfits, haccepts, fun before d after heq => by simp at heq⟩
            · exact hlater h (fun _ hover => by rw [Overruns, hanswer] at hover; cases hover)
        | error e =>
            rw [hanswer] at h
            cases e with
            | malformed => exact hlater h (fun _ hover => by rw [Overruns, hanswer] at hover; cases hover)
            | limit => cases h
      · next hother => exact hlater h (fun hc => absurd hc hother)

theorem findDocument_ok {a x rest : List Char} (hread : Reads x (.value (.obj fields)) rest)
    (hfits : fits room (.obj fields) = true) (haccepts : accepts expected (.obj fields) = true)
    (hclear : Clear room a x) :
    ∃ payload, findDocument room expected (a ++ x) = .ok payload := by
  induction a with
  | nil =>
      obtain ⟨x', rfl⟩ := reads_object hread
      rw [List.nil_append, findDocument, if_pos (.inl rfl), rawDecode_eq_ok.mpr ⟨hread, hfits⟩]
      exact ⟨_, if_pos haccepts⟩
  | cons c a ih =>
      rw [List.cons_append, findDocument]
      split
      · next hc =>
          have hnot := hclear [] c a rfl hc
          rw [List.cons_append] at hnot
          cases hanswer : rawDecode room (c :: (a ++ x)) with
          | ok found =>
              dsimp only
              split
              · exact ⟨_, rfl⟩
              · exact ih hclear.tail
          | error e =>
              cases e with
              | malformed => exact ih hclear.tail
              | limit => exact absurd hanswer hnot
      · exact ih hclear.tail

theorem accepts_document (h : ∃ f ∈ fields, f.1 ∈ expected) : accepts expected (.obj fields) = true := by
  obtain ⟨f, hf, hkey⟩ := h
  rw [accepts, Bool.or_eq_true, List.any_eq_true]
  exact .inr ⟨f, hf, decide_eq_true hkey⟩

theorem document_of_accepts {payload : Value} (hne : expected ≠ []) (h : accepts expected payload = true) :
    ∃ fields, payload = .obj fields ∧ ∃ f ∈ fields, f.1 ∈ expected := by
  have hempty : expected.isEmpty = false := List.isEmpty_eq_false_iff.mpr hne
  cases payload with
  | obj fields =>
      rw [accepts, hempty, Bool.false_or, List.any_eq_true] at h
      obtain ⟨f, hf, hkey⟩ := h
      exact ⟨fields, rfl, f, hf, of_decide_eq_true hkey⟩
  | null | bool | int | float | str | arr => exact absurd (hempty.symm.trans h) Bool.false_ne_true

/-- The marks are gone from the front of what does not begin with one. -/
theorem unmarked_append {p x : List Char} (hx : ∀ c ∈ x.head?, c ≠ byteOrderMark) :
    unmarked (p ++ x) = unmarked p ++ x := by
  induction p with
  | nil =>
      cases x with
      | nil => rfl
      | cons c x => exact List.dropWhile_cons_of_neg (by simpa using hx c rfl)
  | cons c p ih =>
      rw [unmarked, List.cons_append]
      by_cases hc : c = byteOrderMark
      · rw [List.dropWhile_cons_of_pos (by simpa using hc), ← unmarked, ih, unmarked, unmarked,
          List.dropWhile_cons_of_pos (by simpa using hc)]
      · rw [List.dropWhile_cons_of_neg (by simpa using hc), unmarked, List.dropWhile_cons_of_neg (by simpa using hc),
          List.cons_append]

theorem unmarked_suffix (p : List Char) : unmarked p <:+ p := List.dropWhile_suffix _

theorem braceless_unmarked {p : List Char} (hp : Braceless p) : Braceless (unmarked p) :=
  fun c hc => hp c ((unmarked_suffix p).subset hc)

theorem object_unmarked {t rest : List Char} (h : Reads t (.value (.obj fields)) rest) :
    ∀ c ∈ t.head?, c ≠ byteOrderMark := by
  obtain ⟨t', rfl⟩ := reads_object h
  rintro c hc rfl
  cases hc

/-- The loop does not look at the marks. -/
theorem findDocument_unmarked (text : List Char) :
    findDocument room expected (unmarked text) = findDocument room expected text := by
  induction text with
  | nil => rfl
  | cons c text ih =>
      by_cases hc : c = byteOrderMark
      · rw [unmarked, List.dropWhile_cons_of_pos (by simpa using hc), ← unmarked, ih, findDocument,
          if_neg (by rw [hc]; decide)]
      · rw [unmarked, List.dropWhile_cons_of_neg (by simpa using hc)]

/-- `json.loads` gives the document, or is stopped by a limit or by an error. -/
theorem loads_cases (text : List Char) :
    (∃ v, loads room text = .ok v ∧ IsJson room text ∧ ¬Overruns room (skip text)) ∨
      (loads room text = .error .limit ∧ ¬IsJson room text ∧ Overruns room (skip text)) ∨
      (loads room text = .error .malformed ∧ ¬IsJson room text ∧ ¬Overruns room (skip text)) := by
  have hjson : IsJson room text ↔ ∃ v, loads room text = .ok v := by
    rw [IsJson]
    exact exists_congr (fun v => loads_eq_ok.symm)
  rw [hjson, loads, Overruns]
  cases rawDecode room (skip text) with
  | error e =>
      cases e with
      | malformed => exact .inr (.inr ⟨rfl, by simp, by simp⟩)
      | limit => exact .inr (.inl ⟨rfl, by simp, rfl⟩)
  | ok r =>
      dsimp only
      split
      · exact .inl ⟨_, rfl, ⟨_, rfl⟩, by simp⟩
      · exact .inr (.inr ⟨rfl, by simp, by simp⟩)

theorem string_of_blanks {b z rest : List Char} {k : Key} (hb : ∀ c ∈ b, isBlank c = true)
    (h : readString .plain (b ++ '"' :: z) = some (k, rest)) : rest = z := by
  induction b generalizing k with
  | nil =>
      rw [List.nil_append, readString, if_pos rfl] at h
      cases h
      rfl
  | cons c b ih =>
      have hplain := blank_plain hb c (List.mem_cons_self ..)
      rw [List.cons_append, readString, if_neg hplain.1, if_neg hplain.2] at h
      split at h
      · cases h
      obtain ⟨⟨k', r⟩, hr, heq⟩ := Option.map_eq_some_iff.mp h
      cases heq
      exact ih (fun d hd => hb d (List.mem_cons_of_mem _ hd)) hr

/-- A string that begins before a brace ends at the next quote after it. -/
theorem string_ends {mode : Mode} {y b z rest : List Char} {k : Key} (hb : ∀ c ∈ b, isBlank c = true)
    (h : readString mode (y ++ '{' :: (b ++ '"' :: z)) = some (k, rest)) : z <:+ rest := by
  induction y generalizing mode k with
  | nil =>
      cases mode with
      | plain =>
          rw [List.nil_append, readString, if_neg (by decide), if_neg (by decide), if_neg (by decide)] at h
          obtain ⟨⟨k', r⟩, hr, heq⟩ := Option.map_eq_some_iff.mp h
          cases heq
          have hrest : r = z := string_of_blanks hb hr
          exact hrest ▸ List.suffix_refl z
      | escaped => cases h
      | hex missing value => cases h
  | cons c y ih =>
      have hmap {m : Mode} {n : Nat}
          (h : (readString m (y ++ '{' :: (b ++ '"' :: z))).map (fun r => (n :: r.1, r.2)) = some (k, rest)) : z
            <:+ rest := by
        obtain ⟨⟨k', r⟩, hr, heq⟩ := Option.map_eq_some_iff.mp h
        cases heq
        exact ih hr
      rw [List.cons_append] at h
      cases mode with
      | plain =>
          rw [readString] at h
          split at h
          · cases h
            exact ⟨y ++ '{' :: (b ++ ['"']), by simp⟩
          split at h
          · exact ih h
          split at h
          · cases h
          · exact hmap h
      | escaped =>
          rw [readString] at h
          split at h
          · exact ih h
          split at h
          · exact hmap h
          · cases h
      | hex missing value =>
          rw [readString] at h
          split at h
          · split at h
            · exact hmap h
            · exact ih h
          · cases h

/-- The text of an object with members, up to its first quote and from it on. -/
theorem document_text (h : IsDocument expected s fields) :
    ∃ b z, (∀ c ∈ b, isBlank c = true) ∧ s = '{' :: (b ++ '"' :: z) ∧ '}' ∈ z := by
  obtain ⟨hreads, f, hf, -⟩ := h
  cases hreads with
  | emptyObject => cases hf
  | scalar h => exact absurd trivial (readScalar_move h).1
  | @object t _ _ hmembers =>
      have hclosing := (reads_closing hmembers (.inr ⟨_, rfl⟩)).subset (List.mem_cons_self ..)
      obtain ⟨b, hb, ht⟩ := skip_append t
      have hquote : ∃ z, skip t = '"' :: z := by
        cases hskip : skip t with
        | nil => rw [hskip] at hmembers; cases hmembers
        | cons c z =>
            rw [hskip] at hmembers
            cases hmembers with
            | lastMember | nextMember => exact ⟨z, rfl⟩
      obtain ⟨z, hz⟩ := hquote
      rw [hz] at ht hclosing
      exact ⟨b, z, hb, congrArg _ ht, (List.mem_cons.mp hclosing).resolve_left (by decide)⟩

theorem skip_ne_nil {rest : List Char} {c : Char} (hc : isBlank c = false) (h : c ∈ rest) : skip rest ≠ [] := by
  intro hskip
  have hall := List.dropWhile_eq_nil_iff.mp hskip c h
  rw [hc] at hall
  cases hall

/-- What begins before a document is not one itself. -/
theorem starts_before {y q rest : List Char} {v : Value} (hy : Braceless y) (hne : y ≠ [])
    (hs : IsDocument expected s fields) (h : Reads (y ++ (s ++ q)) (.value v) rest) : skip rest ≠ [] := by
  obtain ⟨b, z, hb, rfl, hz⟩ := document_text hs
  obtain ⟨c, y, rfl⟩ := List.exists_cons_of_ne_nil hne
  obtain ⟨hbrace, -, hbracket, -⟩ := hy c (List.mem_cons_self ..)
  rw [List.cons_append] at h
  have hscalar (h : readScalar (c :: (y ++ ('{' :: (b ++ '"' :: z) ++ q))) = some (v, rest)) : skip rest ≠ [] := by
    obtain ⟨-, token, -, heq, htoken, -⟩ := readScalar_move h
    have hmem : '{' ∈ token ++ rest := heq ▸ by simp
    exact skip_ne_nil rfl ((List.mem_append.mp hmem).resolve_left (fun hin => (htoken _ hin).2.2.1 rfl))
  generalize htext : c :: (y ++ ('{' :: (b ++ '"' :: z) ++ q)) = text at h
  cases h with
  | @string t k _ h =>
      obtain ⟨-, ht⟩ := List.cons.inj htext
      have hform : t = y ++ '{' :: (b ++ '"' :: (z ++ q)) := by rw [← ht]; simp
      rw [hform] at h
      exact skip_ne_nil rfl ((string_ends hb h).subset (List.mem_append_left q hz))
  | scalar h => exact hscalar (htext ▸ h)
  | emptyObject | object => exact absurd (List.cons.inj htext).1 hbrace
  | emptyArray | array => exact absurd (List.cons.inj htext).1 hbracket

/-- Text without braces around a document does not matter, unless it begins with a
number that is too long. -/
theorem load_document {p q : List Char} (hp : Braceless p) (hs : IsDocument expected s fields) :
    loadBorgJsonDocument stack expected (p ++ (s ++ q)) = .ok (.obj fields) ↔
      ¬Overruns stack.loads (skip (unmarked (p ++ (s ++ q)))) ∧ fits stack.decoder (.obj fields) = true := by
  obtain ⟨t, -, ht, hmove⟩ := reads_move hs.reads
  rw [List.append_nil] at ht
  subst ht
  have hread := hmove q (.inl trivial)
  have hmarks : unmarked (p ++ (s ++ q)) = unmarked p ++ (s ++ q) := unmarked_append (object_unmarked hread)
  have hfound : findDocument stack.decoder expected (unmarked (p ++ (s ++ q))) =
      if fits stack.decoder (.obj fields) then .ok (.obj fields) else .error .limit := by
    obtain ⟨t', ht'⟩ := reads_object hread
    rw [findDocument_unmarked, findDocument_braceless hp, ht', findDocument, if_pos (.inl rfl), ← ht',
      rawDecode_of_reads hread]
    cases fits stack.decoder (.obj fields) with
    | true => exact if_pos (accepts_document hs.known)
    | false => rfl
  rw [loadBorgJsonDocument]
  rcases @loads_cases stack.loads (unmarked (p ++ (s ++ q))) with ⟨v, hloads, -, hclear⟩ | ⟨hloads, -, hover⟩
    | ⟨hloads, -, hclear⟩
  · rw [hloads]
    obtain ⟨rest, hvalue, hfits, hblank⟩ := loads_eq_ok.mp hloads
    obtain ⟨t', ht'⟩ := reads_object hread
    have hskip : skip (unmarked (p ++ (s ++ q))) = skip (unmarked p) ++ (s ++ q) := by
      rw [hmarks, ht', skip, List.dropWhile_append, skip]
      split
      · next hnil =>
          rw [List.isEmpty_iff.mp hnil, List.nil_append]
          exact List.dropWhile_cons_of_neg (by decide)
      · rfl
    rw [hskip] at hvalue
    by_cases hnil : skip (unmarked p) = []
    · rw [hnil, List.nil_append] at hvalue
      obtain ⟨rfl, -⟩ := hvalue.unique hread
      exact iff_of_true rfl ⟨hclear, fits_mono stack.nearer _ hfits⟩
    · have hplain : Braceless (skip (unmarked p)) :=
        fun c hc => braceless_unmarked hp c ((skip_suffix _).subset hc)
      exact absurd hblank (starts_before hplain hnil hs hvalue)
  · rw [hloads]
    exact iff_of_false (by simp) (fun h => h.1 hover)
  · rw [hloads]
    dsimp only
    rw [hfound]
    cases hfits : fits stack.decoder (.obj fields) with
    | true => exact iff_of_true rfl ⟨hclear, rfl⟩
    | false => exact iff_of_false (by simp) (by simp)

/-- What is read before a text without braces is read alone. -/
theorem reads_within {u q a x rest : List Char} (hq : Braceless q) (htext : u ++ q = a ++ x)
    (h : Reads x (.value (.obj fields)) rest) :
    ∃ t left, u = a ++ (t ++ left) ∧ x = t ++ (left ++ q) ∧ ∀ r, Reads (t ++ r) (.value (.obj fields)) r := by
  obtain ⟨x', rfl⟩ := reads_object h
  obtain ⟨y, hu, hy⟩ : ∃ y, u = a ++ '{' :: y ∧ x' = y ++ q := by
    rcases List.append_eq_append_iff.mp htext with ⟨c, -, hc⟩ | ⟨c, hc, hx⟩
    · exact absurd rfl (hq '{' (hc ▸ by simp)).1
    · cases c with
      | nil => exact absurd rfl (hq '{' (by rw [← show '{' :: x' = q from hx]; simp)).1
      | cons d c =>
          obtain ⟨rfl, hx'⟩ := List.cons.inj hx
          exact ⟨c, hc, hx'⟩
  subst hy
  obtain ⟨t, -, ht, hmove⟩ := reads_move h
  obtain ⟨left, rfl⟩ : ∃ left, rest = left ++ q := by
    obtain ⟨z, hz⟩ := reads_closing h (.inl ⟨_, rfl⟩)
    rw [← List.cons_append] at hz
    rcases List.append_eq_append_iff.mp hz with ⟨c, hc, hx⟩ | ⟨c, hc, hx⟩
    · cases c with
      | nil => exact absurd rfl (hq '}' (by rw [← show '}' :: rest = q from hx]; simp)).2.1
      | cons d c => exact ⟨c, (List.cons.inj hx).2⟩
    · exact absurd rfl (hq '}' (hx ▸ by simp)).2.1
  refine ⟨t, left, ?_, ht, fun r => hmove r (.inl trivial)⟩
  rw [← List.cons_append, ← List.append_assoc] at ht
  rw [hu, List.append_cancel_right ht]

theorem not_wordless {reader : Reader} {name : Key} (h : name ∈ reader.expectedKeys) : ¬ Wordless name := by
  intro hword
  have hletter (c : Char) (hc : name.head? = some c.toNat) (halpha : c.isAlpha = true) : False :=
    Bool.false_ne_true ((hword c hc).symm.trans halpha)
  cases reader with
  | archiveListing =>
      rw [List.mem_singleton.mp h] at hletter
      exact hletter 'a' rfl rfl
  | borgInfo =>
      simp only [Reader.expectedKeys, List.mem_cons, List.not_mem_nil, or_false] at h
      rcases h with rfl | rfl | rfl | rfl | rfl | rfl
      · exact hletter 'a' rfl rfl
      · exact hletter 'a' rfl rfl
      · exact hletter 'c' rfl rfl
      · exact hletter 'r' rfl rfl
      · exact hletter 'e' rfl rfl
      · exact hletter 's' rfl rfl

theorem expectedKeys_ne_nil (reader : Reader) : reader.expectedKeys ≠ [] := by
  cases reader <;> exact List.cons_ne_nil _ _

/-- The loop finds a document before a text without braces just when there is one. -/
theorem findDocument_unfinished {reader : Reader} {u w q : List Char} (hq : Braceless q)
    (hs : IsDocument reader.expectedKeys (u ++ w) fields) :
    (∃ payload, findDocument room reader.expectedKeys (u ++ q) = .ok payload) ↔
      HoldsDocument room reader.expectedKeys u q := by
  constructor
  · rintro ⟨payload, hfound⟩
    obtain ⟨a, x, rest, htext, hread, hfits, haccepts, hclear⟩ := findDocument_eq_ok hfound
    obtain ⟨found, rfl, hknown⟩ := document_of_accepts (expectedKeys_ne_nil reader) haccepts
    obtain ⟨t, left, rfl, rfl, hmove⟩ := reads_within hq htext hread
    refine ⟨a, t, left, found, rfl, ?_, ⟨?_, hknown⟩, hfits, hclear⟩
    · have hdocument := hs.reads
      rw [List.append_assoc, List.append_assoc] at hdocument
      obtain ⟨f, hf, hkey⟩ := hknown
      exact object_outside hdocument (hmove (left ++ w)) ⟨f, hf, not_wordless hkey⟩
    · have halone := hmove []
      rwa [List.append_nil] at halone
  · rintro ⟨a, t, b, found, rfl, -, ht, hfits, hclear⟩
    obtain ⟨t', -, heq, hmove⟩ := reads_move ht.reads
    rw [List.append_nil] at heq
    subst heq
    rw [List.append_assoc, List.append_assoc]
    exact findDocument_ok (hmove (b ++ q) (.inl trivial)) hfits (accepts_document ht.known) hclear

/-- An unfinished document is refused, unless it holds a document of its own or
is one word or string with the text around it. -/
theorem load_unfinished {reader : Reader} {p u w q : List Char} (hp : Braceless p) (hq : Braceless q)
    (hs : IsDocument reader.expectedKeys (u ++ w) fields) :
    (∃ e, loadBorgJsonDocument stack reader.expectedKeys (p ++ (u ++ q)) = .error e) ↔
      ¬IsJson stack.loads (unmarked (p ++ (u ++ q))) ∧
        (Overruns stack.loads (skip (unmarked (p ++ (u ++ q)))) ∨
          ¬HoldsDocument stack.decoder reader.expectedKeys u q) := by
  rw [loadBorgJsonDocument, ← findDocument_unfinished hq hs, findDocument_unmarked, findDocument_braceless hp]
  rcases @loads_cases stack.loads (unmarked (p ++ (u ++ q))) with ⟨v, hloads, hjson, -⟩ | ⟨hloads, hjson, hover⟩
    | ⟨hloads, hjson, hclear⟩
  · rw [hloads]
    exact iff_of_false (by simp) (fun h => h.1 hjson)
  · rw [hloads]
    exact iff_of_true ⟨_, rfl⟩ ⟨hjson, .inl hover⟩
  · rw [hloads]
    dsimp only
    cases findDocument stack.decoder reader.expectedKeys (u ++ q) with
    | error e => exact iff_of_true ⟨e, rfl⟩ ⟨hjson, .inr (by simp)⟩
    | ok payload => exact iff_of_false (by simp) (fun h => (h.2.resolve_left hclear) ⟨payload, rfl⟩)

/-- The parser of a caller answers that there is no document, or is stopped by a limit. -/
def Refuses (stack : Stack) (reader : Reader) (output : List Char) : Prop :=
  match reader with
  | .archiveListing => ∀ rows : List Value → List Value,
      parseArchiveListing stack rows output = .error (.message "Borg returned an invalid archive list") ∨
        parseArchiveListing stack rows output = .error .limit
  | .borgInfo => ∀ report : List (Key × Value) → Value,
      parseBorgInfo stack report output = .error (.message "Borg-Informationsausgabe ist kein gültiges JSON") ∨
        parseBorgInfo stack report output = .error .limit

theorem refuses {reader : Reader} {output : List Char} {e : Refusal}
    (h : loadBorgJsonDocument stack reader.expectedKeys output = .error e) : Refuses stack reader output := by
  cases reader with
  | archiveListing =>
      intro rows
      rw [parseArchiveListing, h]
      cases e with
      | malformed => exact .inl rfl
      | limit => exact .inr rfl
  | borgInfo =>
      intro report
      rw [parseBorgInfo, h]
      cases e with
      | malformed => exact .inl rfl
      | limit => exact .inr rfl

/-- A whole document is found between any texts without braces, unless the reader
comes upon a limit of the interpreter. A cut one is refused just when the output is
not one word or string, and such a limit comes first or the part before the cut holds
no document of its own. -/
theorem documents_between_text (stack : Stack) (reader : Reader) (hs : IsDocument reader.expectedKeys s fields)
    (p q : List Char) (hp : Braceless p) (hq : Braceless q) :
    (loadBorgJsonDocument stack reader.expectedKeys (p ++ (s ++ q)) = .ok (.obj fields) ↔
        ¬Overruns stack.loads (skip (unmarked (p ++ (s ++ q)))) ∧ fits stack.decoder (.obj fields) = true) ∧
      ∀ u w, s = u ++ w → w ≠ [] →
        ((∃ e, loadBorgJsonDocument stack reader.expectedKeys (p ++ (u ++ q)) = .error e) ∧
            Refuses stack reader (p ++ (u ++ q)) ↔
          ¬IsJson stack.loads (unmarked (p ++ (u ++ q))) ∧
            (Overruns stack.loads (skip (unmarked (p ++ (u ++ q)))) ∨
              ¬HoldsDocument stack.decoder reader.expectedKeys u q)) := by
  refine ⟨load_document hp hs, ?_⟩
  rintro u w rfl -
  rw [← load_unfinished hp hq hs]
  exact ⟨fun h => h.1, fun h => ⟨h, h.elim (fun _ => refuses)⟩⟩

/-- The information about a repository with one archive, up to the end of the
archive and after it. -/
def cutInfo : List Char × List Char :=
  ("\x7b\"archives\": [\x7b\"name\": \"a\", \"stats\": \x7b\x7d\x7d".toList, "], \"repository\": \x7b\x7d\x7d".toList)

/-- The decoder finds one object with one of the keys. -/
def decodes (room : Nat) (expected : List Key) (s : List Char) : Bool :=
  match rawDecode room s with
  | .ok (.obj fields, []) => fields.any (fun f => decide (f.1 ∈ expected))
  | _ => false

theorem isDocument_of_decodes (h : decodes room expected s = true) :
    ∃ fields, IsDocument expected s fields ∧ fits room (.obj fields) = true := by
  rw [decodes] at h
  split at h
  · next fields hanswer =>
      obtain ⟨f, hf, hkey⟩ := List.any_eq_true.mp h
      obtain ⟨hread, hfits⟩ := rawDecode_eq_ok.mp hanswer
      exact ⟨fields, ⟨hread, f, hf, of_decide_eq_true hkey⟩, hfits⟩
  · cases h

/-- Calls that may be left to a request. -/
def usualStack : Stack := ⟨900, 902, by decide⟩

theorem cutInfo_isDocument : ∃ fields, IsDocument Reader.borgInfo.expectedKeys (cutInfo.1 ++ cutInfo.2) fields ∧
    fits usualStack.decoder (.obj fields) = true :=
  isDocument_of_decodes (by decide +kernel)

def banner : List Char × List Char :=
  ("Warning: Permanently added 'nas' (ED25519).\n".toList, "\nConnection closed.".toList)

/-- The whole text is read between the lines of the shell. Cut within the name of the
archive it is refused. -/
theorem documents_between_text_banner :
    (∃ fields, loadBorgJsonDocument usualStack Reader.borgInfo.expectedKeys
        (banner.1 ++ (cutInfo.1 ++ cutInfo.2 ++ banner.2)) = .ok (.obj fields)) ∧
      Refuses usualStack .borgInfo (banner.1 ++ (cutInfo.1.take 24 ++ banner.2)) := by
  obtain ⟨fields, hdocument, hfits⟩ := cutInfo_isDocument
  have hq : Braceless banner.2 := by decide +kernel
  have hcut : cutInfo.1 ++ cutInfo.2 = cutInfo.1.take 24 ++ (cutInfo.1.drop 24 ++ cutInfo.2) := by
    rw [← List.append_assoc, List.take_append_drop]
  obtain ⟨hwhole, hcuts⟩ := documents_between_text usualStack .borgInfo hdocument banner.1 banner.2
    (by decide +kernel) hq
  refine ⟨⟨fields, hwhole.mpr ⟨by decide +kernel, hfits⟩⟩, ((hcuts _ _ hcut (by decide +kernel)).mpr ⟨?_, .inr ?_⟩).2⟩
  · rintro ⟨v, hjson⟩
    have hnone : (loads usualStack.loads (unmarked (banner.1 ++ (cutInfo.1.take 24 ++ banner.2)))).toBool = false := by
      decide +kernel
    rw [loads_eq_ok.mpr hjson] at hnone
    cases hnone
  · intro hholds
    rw [hcut] at hdocument
    obtain ⟨payload, hfound⟩ := (findDocument_unfinished hq hdocument).mpr hholds
    have hnone : (findDocument usualStack.decoder Reader.borgInfo.expectedKeys (cutInfo.1.take 24 ++ banner.2)).toBool =
        false := by
      decide +kernel
    rw [hfound] at hnone
    cases hnone

/-- The information that ends after an archive is read as that archive, and a whole
document is not read after a number of 4301 digits. -/
theorem unfinished_info_read :
    (∃ fields, IsDocument Reader.borgInfo.expectedKeys (cutInfo.1 ++ cutInfo.2) fields) ∧ cutInfo.2 ≠ [] ∧
      parseBorgInfo usualStack (List.map Prod.fst) cutInfo.1 = .ok [key "name", key "stats"] ∧
      parseBorgInfo usualStack (List.map Prod.fst) (List.replicate 4301 '1' ++ (cutInfo.1 ++ cutInfo.2)) =
        .error .limit := by
  obtain ⟨fields, hdocument, -⟩ := cutInfo_isDocument
  exact ⟨⟨fields, hdocument⟩, by decide +kernel, by decide +kernel, by decide +kernel⟩

end BorgManager.BorgDocuments
