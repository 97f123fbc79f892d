import BorgManager.ByteLines
import BorgManager.DistinctTallies
import BorgManager.Utf8Decoding
import BorgManager.WarningItems

namespace BorgManager.WarningCollector

open PythonText Patterns ByteLines LinePatterns BytePatterns Utf8Decoding WarningItems DistinctTallies
open RemoteOutput (Runtime)

def nonWarningStatuses : String := "AMURdbchsfipx?+.-"

def itemFields : Pattern :=
  sequence [.many true gap, optional remoteLabel, among nonWarningStatuses, plus true gap, .many true inLine]

/-- `_ONLY_NON_WARNING_ITEM_BLOCK_BYTES_RE` -/
def onlyItemBlock : Pattern := plus true (.seq itemFields bareNewline)

def itemBlock (block : List UInt8) : Bool := (onlyItemBlock.fullmatch (latin block)).isSome

/-- `_can_skip_item_line_bytes` -/
def canSkipItemLine (line : List UInt8) : Bool :=
  let stripped := (latin line).dropWhile isBlank
  let candidate :=
    if (stripped.take 7).map Char.toLower = "remote:".toList then (stripped.drop 7).dropWhile isBlank else stripped
  match candidate with
  | status :: next :: _ => nonWarningStatuses.toList.contains status && isSpace next
  | _ => false

/-- `data.replace(b"\r\n", b"\n").replace(b"\r", b"\n")` -/
def normalized : List UInt8 → List UInt8
  | [] => []
  | [b] => [if carriageReturn b then 10 else b]
  | b :: c :: rest =>
      if carriageReturn b && lineFeed c then 10 :: normalized rest
      else (if carriageReturn b then 10 else b) :: normalized (c :: rest)

/-- `complete.splitlines()` -/
def splitLines (text : List UInt8) : List (List UInt8) :=
  (pieces carriageReturn lineFeed text).map (fun piece => piece.rdropWhile (fun b => carriageReturn b || lineFeed b))

/-- `BorgWarningCollector` -/
structure Collector where
  maxItems : Nat
  stdout : List UInt8
  stderr : List UInt8
  items : List Item
  seen : List Item
  counts : Kind → Nat
  total : Nat

section Collector

variable (rt : Runtime)

def initial (maxItems : Int) : Collector := ⟨(max 1 maxItems).toNat, [], [], [], [], fun _ => 0, 0⟩

/-- The key under which a warning is recorded. -/
def keyOf (item : Item) : Item := ⟨item.kind, cleanPath item.path, stripWhile isSpace item.reason⟩

/-- `_record` -/
def Collector.record (c : Collector) (item : Item) : Bool × Collector :=
  let key := keyOf item
  if key ∈ c.seen then (false, c)
  else
    (true, { c with
      seen := c.seen ++ [key]
      total := c.total + 1
      counts := Function.update c.counts key.kind (c.counts key.kind + 1)
      items := if c.items.length < c.maxItems then c.items ++ [key] else c.items })

/-- What is done with the warning of a line, if it has one. -/
def recordItem (state : Bool × Collector) : Option Item → Bool × Collector
  | none => state
  | some item => ((state.2.record item).1 || state.1, (state.2.record item).2)

def recordLine (state : Bool × Collector) (line : List UInt8) : Bool × Collector :=
  if canSkipItemLine line then state else recordItem state (warningItem rt (decode line))

def Collector.buffer (c : Collector) (stream : String) : List UInt8 := if stream = "stdout" then c.stdout else c.stderr

def Collector.setBuffer (c : Collector) (stream : String) (bytes : List UInt8) : Collector :=
  if stream = "stdout" then { c with stdout := bytes } else { c with stderr := bytes }

/-- `feed_bytes`; any other name than `stdout` stands for `stderr`. -/
def Collector.feedBytes (c : Collector) (data : List UInt8) (stream : String) : Bool × Collector :=
  if data = [] then (false, c)
  else
    let combined := c.buffer stream ++ normalized data
    if combined.any lineFeed then
      let next := c.setBuffer stream (trailing lineFeed combined)
      if itemBlock (complete lineFeed combined) then (false, next)
      else (splitLines (complete lineFeed combined)).foldl (recordLine rt) (false, next)
    else (false, c.setBuffer stream combined)

/-- `feed_bytes` without the test for a whole block. -/
def Collector.feedLines (c : Collector) (data : List UInt8) (stream : String) : Bool × Collector :=
  if data = [] then (false, c)
  else
    let combined := c.buffer stream ++ normalized data
    if combined.any lineFeed then
      (splitLines (complete lineFeed combined)).foldl (recordLine rt)
        (false, c.setBuffer stream (trailing lineFeed combined))
    else (false, c.setBuffer stream combined)

/-- What `finalize` does with one buffer. -/
def Collector.finalizeBuffer (state : Bool × Collector) (stream : String) : Bool × Collector :=
  let remainder := state.2.buffer stream
  let recorded := if remainder = [] then state else recordItem state (warningItem rt (decode remainder))
  (recorded.1, recorded.2.setBuffer stream [])

/-- `finalize` -/
def Collector.finalize (c : Collector) : Bool × Collector :=
  Collector.finalizeBuffer rt (Collector.finalizeBuffer rt (false, c) "stdout") "stderr"

/-- A run over chunks of both streams, in the order in which they come. -/
def collect (maxItems : Int) (feeds : List (String × List UInt8)) : Collector :=
  ((feeds.foldl (fun c feed => (c.feedBytes rt feed.2 feed.1).2) (initial maxItems)).finalize rt).2

end Collector

/-- The bytes of one of the two streams. -/
def streamBytes (stdout : Bool) (feeds : List (String × List UInt8)) : List UInt8 :=
  (feeds.filter (fun feed => decide (feed.1 = "stdout") == stdout)).flatMap (·.2)


section Skipping

theorem within_itemFields : Within itemFields := by
  simp [itemFields, Patterns.sequence, Within, Patterns.optional, plus, among, nonWarningStatuses, gap, inLine,
    remoteLabel, exactly, literal]

theorem avoids_itemFields : Avoids '\r' itemFields := by
  simp [itemFields, Patterns.sequence, Avoids, Patterns.optional, plus, among, nonWarningStatuses, gap, inLine,
    remoteLabel, exactly, literal]

theorem takes_nothing {word : List Char} (h : Takes .nothing word) : word = [] := h

theorem takes_gaps {greedy : Bool} {word : List Char} (h : Takes (.many greedy gap) word) :
    ∀ c ∈ word, isBlank c = true := by
  intro c hc
  have hgap := takes_many_char h c hc
  rw [Bool.or_eq_true, beq_iff_eq, beq_iff_eq] at hgap
  rcases hgap with rfl | rfl <;> rfl

/-- The label is its seven letters in any case, with blanks behind it. -/
theorem takes_remoteLabel {word : List Char} (h : Takes remoteLabel word) :
    ∃ letters blanks, word = letters ++ blanks ∧ letters.map Char.toLower = "remote:".toList ∧
    (∀ c ∈ letters, isBlank c = false) ∧
      ∀ c ∈ blanks, isBlank c = true := by
  obtain ⟨_, _, rfl, ⟨a, rfl, ha⟩, _, _, rfl, ⟨b, rfl, hb⟩, _, _, rfl, ⟨c, rfl, hc⟩, _, _, rfl, ⟨d, rfl, hd⟩, _,
    _, rfl, ⟨e, rfl, he⟩,
    _, _, rfl, ⟨f, rfl, hf⟩, _, _, rfl, ⟨_, _, rfl, ⟨g, rfl, hg⟩, hnone⟩, blanks, _, rfl, hblanks, hend⟩ := h
  have hletter {members : String} {x y : Char} (hmem : members.toList.contains x = true)
      (hall : members.toList.all (fun x => x.toLower == y && !isBlank x) = true) : x.toLower = y ∧
        isBlank x = false := by
    have hx := List.all_eq_true.mp hall x (by simpa using hmem)
    rwa [Bool.and_eq_true, beq_iff_eq, Bool.not_eq_true'] at hx
  have hcolon : g = ':' := (eq_of_beq hg).symm
  have ha' := @hletter _ a 'r' ha (by decide)
  have hb' := @hletter _ b 'e' hb (by decide)
  have hc' := @hletter _ c 'm' hc (by decide)
  have hd' := @hletter _ d 'o' hd (by decide)
  have he' := @hletter _ e 't' he (by decide)
  have hf' := @hletter _ f 'e' hf (by decide)
  rw [takes_nothing hnone, takes_nothing hend, hcolon]
  refine ⟨[a, b, c, d, e, f, ':'], blanks, by simp, ?_, ?_, takes_gaps hblanks⟩
  · simp only [List.map_cons, List.map_nil, ha'.1, hb'.1, hc'.1, hd'.1, he'.1, hf'.1]
    rfl
  · simp only [List.forall_mem_cons, ha'.2, hb'.2, hc'.2, hd'.2, he'.2, hf'.2, true_and]
    exact ⟨rfl, List.forall_mem_nil _⟩

theorem dropWhile_blanks {blanks rest : List Char} {c : Char} (hblanks : ∀ c ∈ blanks, isBlank c = true)
    (hc : isBlank c = false) :
    (blanks ++ c :: rest).dropWhile isBlank = c :: rest := by
  rw [List.dropWhile_append_of_pos hblanks, List.dropWhile_cons_of_neg (by simp [hc])]

/-- A line that the block pattern takes is one that is skipped. -/
theorem canSkip_of_takes {line : List UInt8} (h : Takes itemFields (latin line)) : canSkipItemLine line = true := by
  obtain ⟨before, _, hline, hbefore, label, _, rfl, hlabel, _, _, rfl, ⟨status, rfl, hstatus⟩, _, path, rfl,
    ⟨_, blanks, rfl, ⟨space, rfl, hspace⟩, -⟩, -⟩ := h
  have hstatusBlank : isBlank status = false := by
    have hall : nonWarningStatuses.toList.all (fun c => !isBlank c) = true := by decide
    simpa using List.all_eq_true.mp hall status (by simpa using hstatus)
  have hspaces : space = ' ' ∨ space = '\t' := by simpa using hspace
  have hcandidate : (match status :: space :: (blanks ++ path) with
      | status :: next :: _ => nonWarningStatuses.toList.contains status && isSpace next
      | _ => false) = true := by
    rw [Bool.and_eq_true]
    refine ⟨hstatus, ?_⟩
    rcases hspaces with rfl | rfl <;> rfl
  rw [canSkipItemLine, hline]
  rcases hlabel with hlabel | hlabel
  · obtain ⟨letters, gaps, rfl, hletters, hsolid, hgaps⟩ := takes_remoteLabel hlabel
    have hlength : letters.length = 7 := by
      rw [← List.length_map Char.toLower, hletters]
      rfl
    cases letters with
    | nil => cases hlength
    | cons first letters =>
        have hstripped : (before ++
          ((first :: letters ++ gaps) ++ ([status] ++ ([space] ++ blanks ++ path)))).dropWhile isBlank =
            (first :: letters) ++ (gaps ++ status :: space :: (blanks ++ path)) := by
          rw [List.append_assoc, List.cons_append, dropWhile_blanks (takes_gaps hbefore)
            (hsolid first (List.mem_cons_self ..))]
          simp
        rw [hstripped, List.take_left' hlength, List.drop_left' hlength, if_pos hletters,
          dropWhile_blanks hgaps hstatusBlank]
        exact hcandidate
  · rw [takes_nothing hlabel, List.nil_append, List.singleton_append,
      dropWhile_blanks (takes_gaps hbefore) hstatusBlank, if_neg]
    · rw [List.append_assoc, List.singleton_append]
      exact hcandidate
    · intro hremote
      rw [List.append_assoc, List.singleton_append] at hremote
      have hsecond := congrArg (fun l => l[1]?) hremote
      simp only [List.take_succ_cons, List.map_cons, List.getElem?_cons_succ, List.getElem?_cons_zero] at hsecond
      rcases hspaces with rfl | rfl
      · exact absurd hsecond (by decide)
      · exact absurd hsecond (by decide)

end Skipping

section Bodies

def bodyOf (line : List UInt8) : List UInt8 := line.rdropWhile (fun b => carriageReturn b || lineFeed b)

theorem bodyOf_line {body : List UInt8} {x : UInt8} (hopen : Open lineFeed body) (hreturn : Open carriageReturn body)
    (hx : lineFeed x = true) : bodyOf (body ++ [x]) = body := by
  apply rdropWhile_ends
  · intro b hb
    exact Bool.or_eq_false_iff.mpr ⟨hreturn b hb, hopen b hb⟩
  · intro b hb
    rw [List.mem_singleton.mp hb, hx, Bool.or_true]

theorem splitLines_open {text : List UInt8} (h : Open carriageReturn text) :
    splitLines text = (lines lineFeed text).map bodyOf := by
  rw [splitLines, pieces_lines h]
  rfl

theorem isReturn_latin (b : UInt8) : (Char.ofNat b.toNat == '\r') = carriageReturn b := by
  revert b
  exact forall_byte (by decide +kernel)

theorem open_latin {body : List UInt8} (h : Open lineFeed body) : Open isNewline (latin body) := by
  intro c hc
  obtain ⟨b, hb, rfl⟩ := List.mem_map.mp hc
  rw [isNewline_latin]
  exact h b hb

/-- Each line of a block that the pattern matches is skipped, and has no carriage return. -/
theorem itemBlock_line {block : List UInt8} (hwhole : Whole lineFeed block) (h : itemBlock block = true)
    {line : List UInt8} (hline : line ∈ lines lineFeed block) :
    Open carriageReturn line ∧ canSkipItemLine (bodyOf line) = true := by
  have hne : latin block ≠ [] := by
    intro hnil
    rw [List.map_eq_nil_iff.mp hnil] at hline
    cases hline
  rw [itemBlock, onlyItemBlock, block_lines within_itemFields lineEnding_bareNewline (whole_latin hwhole) hne,
    lines_latin] at h
  have hmatch := h _ (List.mem_map_of_mem hline)
  obtain ⟨body, x, rfl, hopen, hx⟩ := line_of_whole hwhole hline
  have hlatin : latin (body ++ [x]) = latin body ++ ['\n'] := by
    rw [latin, latin, List.map_append, eq_of_beq hx]
    rfl
  rw [hlatin, line_fullmatch within_itemFields lineEnding_bareNewline (open_latin hopen)] at hmatch
  obtain ⟨d, hd, hend⟩ := hmatch
  obtain ⟨word, hword, htakes⟩ := ends_takes hd
  rw [List.isEmpty_iff.mp hend, List.append_nil] at hword
  subst hword
  have hreturn : Open carriageReturn body := by
    intro b hb
    rw [← isReturn_latin, Bool.eq_false_iff]
    intro heq
    exact takes_avoids avoids_itemFields htakes (List.mem_map.mpr ⟨b, hb, eq_of_beq heq⟩)
  constructor
  · intro b hb
    rcases List.mem_append.mp hb with hb | hb
    · exact hreturn b hb
    · rw [List.mem_singleton.mp hb, eq_of_beq hx]
      rfl
  · rw [bodyOf_line hopen hreturn hx]
    exact canSkip_of_takes htakes

theorem itemBlock_splitLines {block : List UInt8} (hwhole : Whole lineFeed block) (h : itemBlock block = true) :
    ∀ line ∈ splitLines block, canSkipItemLine line = true := by
  have hopen : Open carriageReturn block := by
    intro b hb
    rw [← flatten_lines (p := lineFeed) block] at hb
    obtain ⟨line, hline, hb⟩ := List.mem_flatten.mp hb
    exact (itemBlock_line hwhole h hline).1 b hb
  rw [splitLines_open hopen]
  intro body hbody
  obtain ⟨line, hline, rfl⟩ := List.mem_map.mp hbody
  exact (itemBlock_line hwhole h hline).2

end Bodies

section FastPath

variable {rt : Runtime}

theorem foldl_recordLine_skipped {bodies : List (List UInt8)} (h : ∀ body ∈ bodies, canSkipItemLine body = true)
    (state : Bool × Collector) : bodies.foldl (recordLine rt) state = state := by
  induction bodies generalizing state with
  | nil => rfl
  | cons body bodies ih =>
      rw [List.foldl_cons, recordLine, if_pos (h body (List.mem_cons_self ..))]
      exact ih (fun body hbody => h body (List.mem_cons_of_mem _ hbody)) state

/-- The test for a whole block changes nothing. -/
theorem feedBytes_eq (c : Collector) (data : List UInt8) (stream : String) :
    c.feedBytes rt data stream = c.feedLines rt data stream := by
  rw [Collector.feedBytes, Collector.feedLines]
  dsimp only
  split
  · rfl
  · split
    · split
      · next hblock => rw [foldl_recordLine_skipped (itemBlock_splitLines (whole_complete _) hblock)]
      · rfl
    · rfl

end FastPath

section Keys

variable (rt : Runtime)

/-- What is recorded for a line that is ended. -/
def lineKey (body : List UInt8) : Option Item :=
  if canSkipItemLine body then none else (warningItem rt (decode body)).map keyOf

def lineKeys (block : List UInt8) : List Item := (lines lineFeed block).filterMap (fun line => lineKey rt (bodyOf line))

/-- What is recorded for what is left at the end. -/
def lastKey (body : List UInt8) : Option Item := (warningItem rt (decode body)).map keyOf

def textKeys (text : List UInt8) : List Item :=
  lineKeys rt (complete lineFeed text) ++ (lastKey rt (trailing lineFeed text)).toList

/-- Each carriage return stands for a line feed. -/
def plain (bytes : List UInt8) : List UInt8 := bytes.map (fun b => if carriageReturn b then 10 else b)

def streamKeys (bytes : List UInt8) : List Item := textKeys rt (plain bytes)

variable {rt}

theorem lineKeys_append {a : List UInt8} (ha : Whole lineFeed a) (b : List UInt8) :
    lineKeys rt (a ++ b) = lineKeys rt a ++ lineKeys rt b := by
  rw [lineKeys, lines_append ha, List.filterMap_append, ← lineKeys, ← lineKeys]

theorem warningItem_nil : warningItem rt (decode []) = none := by
  unfold warningItem
  exact if_pos (Or.inl rfl)

theorem lastKey_nil : lastKey rt [] = none := by rw [lastKey, warningItem_nil, Option.map_none]

theorem lineKeys_newline : lineKeys rt [10] = [] := by
  have hlines : lines lineFeed [10] = [[10]] := rfl
  have hbody : bodyOf [10] = [] := rfl
  have hskip : canSkipItemLine [] = false := rfl
  have hkey : lineKey rt [] = none := by
    rw [lineKey, hskip, warningItem_nil, if_neg Bool.false_ne_true, Option.map_none]
  rw [lineKeys, hlines, List.filterMap_cons, hbody, hkey, List.filterMap_nil]

theorem cut_append {a : List UInt8} (ha : Whole lineFeed a) (b : List UInt8) :
    complete lineFeed (a ++ b) = a ++ complete lineFeed b ∧ trailing lineFeed (a ++ b) = trailing lineFeed b := by
  apply cut_unique (whole_complete _) (open_trailing _) (ha.append (whole_complete b)) (open_trailing b)
  rw [complete_append_trailing, List.append_assoc, complete_append_trailing]

theorem textKeys_append {a : List UInt8} (ha : Whole lineFeed a) (b : List UInt8) :
    textKeys rt (a ++ b) = lineKeys rt a ++ textKeys rt b := by
  obtain ⟨hcomplete, htrailing⟩ := cut_append ha b
  rw [textKeys, hcomplete, htrailing, lineKeys_append ha, List.append_assoc, ← textKeys]

/-- An empty line adds nothing. -/
theorem textKeys_newlines (u v : List UInt8) : textKeys rt (u ++ 10 :: 10 :: v) = textKeys rt (u ++ 10 :: v) := by
  have hu : Whole lineFeed (u ++ [10]) := by simp [Whole, lineFeed]
  have hnewline : Whole lineFeed [10] := by simp [Whole, lineFeed]
  have hline : textKeys rt (10 :: v) = textKeys rt v := by
    have happend := @textKeys_append rt _ hnewline v
    rwa [lineKeys_newline, List.singleton_append, List.nil_append] at happend
  rw [List.append_cons u 10 (10 :: v), List.append_cons u 10 v, textKeys_append hu, textKeys_append hu, hline]

theorem textKeys_normalized (u d v : List UInt8) :
    textKeys rt (u ++ (normalized d ++ v)) = textKeys rt (u ++ (plain d ++ v)) := by
  fun_induction normalized d generalizing u with
  | case1 => rfl
  | case2 b => rfl
  | case3 b c rest hboth ih =>
      rw [Bool.and_eq_true] at hboth
      have hb : b = 13 := eq_of_beq hboth.1
      have hc : c = 10 := eq_of_beq hboth.2
      have hplain : plain (b :: c :: rest) = 10 :: 10 :: plain rest := by
        rw [hb, hc]
        rfl
      rw [hplain, List.cons_append, List.cons_append, List.cons_append, textKeys_newlines, List.append_cons, ih,
        ← List.append_cons]
  | case4 b c rest hnot ih =>
      have hplain : plain (b :: c :: rest) = (if carriageReturn b then 10 else b) :: plain (c :: rest) := rfl
      rw [hplain, List.cons_append, List.cons_append, List.append_cons, ih, ← List.append_cons]

/-- Where a stream is cut does not matter. -/
theorem textKeys_chunks (u : List UInt8) (chunks : List (List UInt8)) :
    textKeys rt (u ++ chunks.flatMap normalized) = textKeys rt (u ++ plain chunks.flatten) := by
  induction chunks generalizing u with
  | nil => rfl
  | cons d chunks ih =>
      have hplain : plain (d :: chunks).flatten = plain d ++ plain chunks.flatten := List.map_append
      rw [List.flatMap_cons, textKeys_normalized, hplain, ← List.append_assoc, ih, List.append_assoc]

theorem open_normalized (d : List UInt8) : Open carriageReturn (normalized d) := by
  have hbyte (b : UInt8) : carriageReturn (if carriageReturn b then 10 else b) = false := by
    cases hb : carriageReturn b with
    | true => rfl
    | false => exact hb
  fun_induction normalized d with
  | case1 => exact open_nil
  | case2 b => exact open_nil.cons (hbyte b)
  | case3 b c rest _ ih => exact ih.cons rfl
  | case4 b c rest _ ih => exact ih.cons (hbyte b)

end Keys

section Recording

variable {rt : Runtime}

def Collector.tally (c : Collector) : Tally Item Kind := ⟨c.seen, c.total, c.counts, c.items⟩

/-- Only what is recorded differs. -/
structure Recorded (c d : Collector) (keys : List Item) : Prop where
  stdout : d.stdout = c.stdout
  stderr : d.stderr = c.stderr
  maxItems : d.maxItems = c.maxItems
  tally : d.tally = c.tally.addAll Item.kind c.maxItems keys

theorem recorded_recordItem (state : Bool × Collector) (item : Option Item) :
    Recorded state.2 (recordItem state item).2 (item.map keyOf).toList := by
  cases item with
  | none => exact ⟨rfl, rfl, rfl, rfl⟩
  | some item =>
      rw [recordItem, Option.map_some, Option.toList_some, Collector.record]
      dsimp only
      by_cases hold : keyOf item ∈ state.2.seen
      · have hadd : state.2.tally.add Item.kind state.2.maxItems (keyOf item) = state.2.tally := if_pos hold
        rw [if_pos hold]
        exact ⟨rfl, rfl, rfl, hadd.symm⟩
      · have hadd : state.2.tally.add Item.kind state.2.maxItems (keyOf item) = _ := if_neg hold
        rw [if_neg hold]
        exact ⟨rfl, rfl, rfl, hadd.symm⟩

theorem Recorded.trans {c d e : Collector} {keys more : List Item} (h : Recorded c d keys) (h' : Recorded d e more) :
    Recorded c e (keys ++ more) where
  stdout := h'.stdout.trans h.stdout
  stderr := h'.stderr.trans h.stderr
  maxItems := h'.maxItems.trans h.maxItems
  tally := by rw [h'.tally, h.tally, h.maxItems, Tally.addAll, Tally.addAll, Tally.addAll, List.foldl_append]

theorem recorded_recordLine (state : Bool × Collector) (body : List UInt8) :
    Recorded state.2 (recordLine rt state body).2 (lineKey rt body).toList := by
  rw [recordLine, lineKey]
  split
  · exact ⟨rfl, rfl, rfl, rfl⟩
  · exact recorded_recordItem state _

theorem recorded_lines (state : Bool × Collector) (bodies : List (List UInt8)) :
    Recorded state.2 (bodies.foldl (recordLine rt) state).2 (bodies.filterMap (lineKey rt)) := by
  induction bodies generalizing state with
  | nil => exact ⟨rfl, rfl, rfl, rfl⟩
  | cons body bodies ih =>
      have hrest := (recorded_recordLine state body).trans (ih (recordLine rt state body))
      rw [List.foldl_cons, List.filterMap_cons]
      cases hkey : lineKey rt body with
      | none => rwa [hkey] at hrest
      | some key => rwa [hkey] at hrest

end Recording

section Runs

variable {rt : Runtime}

theorem buffer_setBuffer (c : Collector) (stream : String) : c.setBuffer stream (c.buffer stream) = c := by
  rw [Collector.setBuffer, Collector.buffer]
  split <;> rfl

theorem Recorded.setBuffer {c d : Collector} {keys : List Item} (h : Recorded c d keys) (stream : String)
    (bytes : List UInt8) :
    Recorded (c.setBuffer stream bytes) (d.setBuffer stream bytes) keys := by
  unfold Collector.setBuffer
  split
  · exact ⟨rfl, h.stderr, h.maxItems, h.tally⟩
  · exact ⟨h.stdout, rfl, h.maxItems, h.tally⟩

theorem Recorded.buffer {c d : Collector} {keys : List Item} (h : Recorded c d keys) (stream : String) :
    d.buffer stream = c.buffer stream := by
  rw [Collector.buffer, Collector.buffer, h.stdout, h.stderr]

/-- Nothing is recorded of a text without the end of a line. -/
theorem recorded_open {c : Collector} {stream : String} {text : List UInt8} (h : Open lineFeed text) :
    Recorded (c.setBuffer stream (trailing lineFeed text)) (c.setBuffer stream text)
      (lineKeys rt (complete lineFeed text)) := by
  rw [(cut_open h).1, (cut_open h).2]
  exact ⟨rfl, rfl, rfl, rfl⟩

theorem recorded_feedBytes {c : Collector} {stream : String} (hopen : Open lineFeed (c.buffer stream))
    (hreturn : Open carriageReturn (c.buffer stream)) (data : List UInt8) :
    Recorded (c.setBuffer stream (trailing lineFeed (c.buffer stream ++ normalized data)))
      (c.feedBytes rt data stream).2
      (lineKeys rt (complete lineFeed (c.buffer stream ++ normalized data))) := by
  rw [feedBytes_eq, Collector.feedLines]
  dsimp only
  split
  · next hnil =>
      have hnone := @recorded_open rt c stream _ hopen
      rw [hnil, normalized, List.append_nil]
      rwa [buffer_setBuffer c stream] at hnone
  · split
    · have hall : Open carriageReturn (complete lineFeed (c.buffer stream ++ normalized data)) := by
        intro b hb
        rcases List.mem_append.mp ((List.rdropWhile_prefix _ _).subset hb) with hb | hb
        · exact hreturn b hb
        · exact open_normalized data b hb
      rw [splitLines_open hall, lineKeys, ← Function.comp_def (lineKey rt), ← List.filterMap_map]
      exact recorded_lines (false, c.setBuffer stream _) _
    · next hnone =>
        apply recorded_open
        intro b hb
        rw [Bool.not_eq_true, List.any_eq_false] at hnone
        exact Bool.eq_false_iff.mpr (hnone b hb)

theorem recorded_finalizeBuffer (state : Bool × Collector) (stream : String) :
    Recorded (state.2.setBuffer stream []) (Collector.finalizeBuffer rt state stream).2
      (lastKey rt (state.2.buffer stream)).toList := by
  rw [Collector.finalizeBuffer]
  dsimp only
  split
  · next hnil =>
      rw [hnil, lastKey_nil]
      exact ⟨rfl, rfl, rfl, rfl⟩
  · exact (recorded_recordItem state _).setBuffer stream []

/-- The collector after these bytes of the two streams. -/
structure Collected (rt : Runtime) (limit : Nat) (out err : List UInt8) (c : Collector) : Prop where
  maxItems : c.maxItems = limit
  stdout : c.stdout = trailing lineFeed out
  stderr : c.stderr = trailing lineFeed err
  openOut : Open carriageReturn out
  openErr : Open carriageReturn err
  tally : Tallies Item.kind limit (lineKeys rt (complete lineFeed out) ++ lineKeys rt (complete lineFeed err)) c.tally

/-- The lines that a chunk completes come after those that are complete. -/
theorem lineKeys_chunk (text d : List UInt8) :
    lineKeys rt (complete lineFeed (text ++ d)) = lineKeys rt (complete lineFeed text) ++ lineKeys rt
      (complete lineFeed (trailing lineFeed text ++ d)) ∧
      trailing lineFeed (text ++ d) = trailing lineFeed (trailing lineFeed text ++ d) := by
  have hcut := cut_append (whole_complete text) (trailing lineFeed text ++ d)
  rw [← List.append_assoc, complete_append_trailing] at hcut
  rw [hcut.1, lineKeys_append (whole_complete text)]
  exact ⟨rfl, hcut.2⟩

theorem Collected.feed {limit : Nat} {out err : List UInt8} {c : Collector} (h : Collected rt limit out err c)
    (feed : String × List UInt8) :
    Collected rt limit (if feed.1 = "stdout" then out ++ normalized feed.2 else out)
      (if feed.1 = "stdout" then err else err ++ normalized feed.2) (c.feedBytes rt feed.2 feed.1).2 := by
  obtain ⟨stream, data⟩ := feed
  dsimp only
  by_cases hstream : stream = "stdout"
  · have hbuffer : c.buffer stream = trailing lineFeed out := by rw [Collector.buffer, if_pos hstream, h.stdout]
    have hrecorded := @recorded_feedBytes rt c stream (hbuffer ▸ open_trailing out) (hbuffer ▸ h.openOut.trailing) data
    obtain ⟨hkeys, htrailing⟩ := @lineKeys_chunk rt out (normalized data)
    rw [hbuffer, ← htrailing, Collector.setBuffer, if_pos hstream] at hrecorded
    rw [if_pos hstream, if_pos hstream]
    refine ⟨hrecorded.maxItems.trans h.maxItems, hrecorded.stdout, hrecorded.stderr.trans h.stderr,
      h.openOut.append (open_normalized data),
      h.openErr, ?_⟩
    have htally := h.tally.addAll (lineKeys rt (complete lineFeed (trailing lineFeed out ++ normalized data)))
    rw [hrecorded.tally, hkeys, h.maxItems]
    refine htally.congr (fun key => ?_)
    simp only [List.mem_append]
    tauto
  · have hbuffer : c.buffer stream = trailing lineFeed err := by rw [Collector.buffer, if_neg hstream, h.stderr]
    have hrecorded := @recorded_feedBytes rt c stream (hbuffer ▸ open_trailing err) (hbuffer ▸ h.openErr.trailing) data
    obtain ⟨hkeys, htrailing⟩ := @lineKeys_chunk rt err (normalized data)
    rw [hbuffer, ← htrailing, Collector.setBuffer, if_neg hstream] at hrecorded
    rw [if_neg hstream, if_neg hstream]
    refine ⟨hrecorded.maxItems.trans h.maxItems, hrecorded.stdout.trans h.stdout, hrecorded.stderr, h.openOut,
      h.openErr.append (open_normalized data), ?_⟩
    have htally := h.tally.addAll (lineKeys rt (complete lineFeed (trailing lineFeed err ++ normalized data)))
    rw [hrecorded.tally, hkeys, h.maxItems, ← List.append_assoc]
    exact htally

/-- What a stream has given, chunk by chunk. -/
def received (stdout : Bool) (feeds : List (String × List UInt8)) : List UInt8 :=
  (feeds.filter (fun feed => decide (feed.1 = "stdout") == stdout)).flatMap (fun feed => normalized feed.2)

theorem textKeys_received (stdout : Bool) (feeds : List (String × List UInt8)) :
    textKeys rt (received stdout feeds) = streamKeys rt (streamBytes stdout feeds) := by
  have hchunks := @textKeys_chunks rt [] ((feeds.filter (fun feed => decide (feed.1 = "stdout") == stdout)).map (·.2))
  rwa [List.nil_append, List.nil_append, List.flatMap_map, ← List.flatMap_def] at hchunks

theorem collected_feeds {limit : Nat} {out err : List UInt8} {c : Collector} (h : Collected rt limit out err c)
    (feeds : List (String × List UInt8)) :
    Collected rt limit (out ++ received true feeds) (err ++ received false feeds)
      (feeds.foldl (fun c feed => (c.feedBytes rt feed.2 feed.1).2) c) := by
  induction feeds generalizing out err c with
  | nil =>
      rw [received, received, List.filter_nil, List.flatMap_nil, List.filter_nil, List.flatMap_nil,
        List.append_nil, List.append_nil]
      exact h
  | cons feed feeds ih =>
      have hrest := ih (h.feed feed)
      rw [List.foldl_cons]
      by_cases hstream : feed.1 = "stdout"
      · rw [if_pos hstream, if_pos hstream, List.append_assoc] at hrest
        simpa [received, hstream] using hrest
      · rw [if_neg hstream, if_neg hstream, List.append_assoc] at hrest
        simpa [received, hstream] using hrest

theorem collected_initial (maxItems : Int) : Collected rt (max 1 maxItems).toNat [] [] (initial maxItems) :=
  ⟨rfl, rfl, rfl, open_nil, open_nil, tallies_empty⟩

/-- The keys of a finished run are those of the two streams. -/
theorem tallies_collect (maxItems : Int) (feeds : List (String × List UInt8)) :
    Tallies Item.kind (max 1 maxItems).toNat
      (streamKeys rt (streamBytes true feeds) ++ streamKeys rt (streamBytes false feeds))
      (collect rt maxItems feeds).tally := by
  have hrun := collected_feeds (@collected_initial rt maxItems) feeds
  rw [List.nil_append, List.nil_append] at hrun
  rw [collect]
  generalize feeds.foldl (fun c feed => (c.feedBytes rt feed.2 feed.1).2) (initial maxItems) = c at hrun
  have hout := @recorded_finalizeBuffer rt (false, c) "stdout"
  have herr := @recorded_finalizeBuffer rt (Collector.finalizeBuffer rt (false, c) "stdout") "stderr"
  have hbufferOut : c.buffer "stdout" = trailing lineFeed (received true feeds) := hrun.stdout
  have hbufferErr : (Collector.finalizeBuffer rt (false, c) "stdout").2.buffer "stderr" = trailing lineFeed
      (received false feeds) :=
    (hout.buffer "stderr").trans hrun.stderr
  have hmaxItems : (Collector.finalizeBuffer rt (false, c) "stdout").2.maxItems = (max 1 maxItems).toNat :=
    hout.maxItems.trans hrun.maxItems
  have htallyOut : (Collector.finalizeBuffer rt (false, c) "stdout").2.tally =
      c.tally.addAll Item.kind (max 1 maxItems).toNat (lastKey rt (c.buffer "stdout")).toList := by
    rw [← hrun.maxItems]
    exact hout.tally
  have htallyErr : (Collector.finalizeBuffer rt (Collector.finalizeBuffer rt (false, c) "stdout") "stderr").2.tally =
      (Collector.finalizeBuffer rt (false, c) "stdout").2.tally.addAll Item.kind (max 1 maxItems).toNat
        (lastKey rt ((Collector.finalizeBuffer rt (false, c) "stdout").2.buffer "stderr")).toList := by
    rw [← hmaxItems]
    exact herr.tally
  rw [Collector.finalize, htallyErr, htallyOut, hbufferErr, hbufferOut]
  refine ((hrun.tally.addAll _).addAll _).congr (fun key => ?_)
  rw [← textKeys_received, ← textKeys_received, textKeys, textKeys]
  simp only [List.mem_append]
  tauto

end Runs

def countKeys : List Kind := [.changed, .permission, .missing, .io, .error, .other, .unknown]

theorem mem_countKeys (kind : Kind) : kind ∈ countKeys := by cases kind <;> decide

/-- The keys of the warnings of a run. -/
def runKeys (rt : Runtime) (feeds : List (String × List UInt8)) : Finset Item :=
  (streamKeys rt (streamBytes true feeds) ++ streamKeys rt (streamBytes false feeds)).toFinset

/-- What a run counts depends on what the streams hold, and neither on where they
are cut nor on how their chunks are mixed. -/
theorem warning_collection (rt : Runtime) (maxItems : Int) (feeds : List (String × List UInt8)) :
    (collect rt maxItems feeds).seen.toFinset = runKeys rt feeds ∧
      (collect rt maxItems feeds).total = (runKeys rt feeds).card ∧
      (∀ kind, (collect rt maxItems feeds).counts kind =
        ((runKeys rt feeds).filter (fun key => key.kind = kind)).card) ∧
      (collect rt maxItems feeds).total = (countKeys.map (collect rt maxItems feeds).counts).sum ∧
      (collect rt maxItems feeds).items.length = min (collect rt maxItems feeds).total (max 1 maxItems).toNat ∧
      (collect rt maxItems feeds).items.Nodup ∧ (∀ item ∈ (collect rt maxItems feeds).items, item ∈ runKeys rt feeds) ∧
      (∀ others, streamBytes true others = streamBytes true feeds → streamBytes false others = streamBytes false feeds →
        (collect rt maxItems others).total = (collect rt maxItems feeds).total ∧
          (collect rt maxItems others).counts = (collect rt maxItems feeds).counts) ∧
      ∀ (c : Collector) (data : List UInt8) (stream : String), c.feedBytes rt data stream =
        c.feedLines rt data stream := by
  have htallies := @tallies_collect rt maxItems feeds
  refine ⟨htallies.toFinset, htallies.total_card, htallies.counts_card, ?_, htallies.length_items,
    htallies.items_keys.1,
    htallies.items_keys.2, ?_, fun c data stream => feedBytes_eq c data stream⟩
  · exact (htallies.sum_counts (by decide) mem_countKeys).symm
  · intro others hout herr
    have hothers := @tallies_collect rt maxItems others
    rw [hout, herr] at hothers
    constructor
    · exact hothers.total_card.trans htallies.total_card.symm
    · funext kind
      exact (hothers.counts_card kind).trans (htallies.counts_card kind).symm

end BorgManager.WarningCollector
