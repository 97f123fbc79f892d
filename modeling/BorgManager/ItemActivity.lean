import BorgManager.BytePatterns
import BorgManager.PythonText
import BorgManager.Utf8Decoding

namespace BorgManager.ItemActivity

open Patterns ByteLines LinePatterns BytePatterns

def itemFields : Pattern :=
  sequence [.many true gap, optional remoteLabel, .group 1 (among "AMCE"), plus true gap, .group 2 (plus true inLine),
    optional (exactly "\r"), .lineEnd]

/-- `_ITEM_ACTIVITY_RE` -/
def itemActivity : Pattern := .seq .lineStart itemFields

def addedModifiedFields : Pattern :=
  sequence [.many true gap, optional remoteLabel, among "AM", plus true gap, .many true inLine]

/-- `_ADDED_MODIFIED_LINE_RE` -/
def addedModifiedLine : Pattern := .seq .lineStart (.seq addedModifiedFields newlineOrEnd)

/-- `BorgItemActivity` -/
structure Activity where
  added : Nat
  modified : Nat
  changed : Nat
  error : Nat
  lastStatus : List Char
  lastPath : List Char
  deriving DecidableEq

def Activity.count (a : Activity) (m : Cursor) : Activity :=
  match field m 1 with
  | ['A'] => { a with added := a.added + 1 }
  | ['M'] => { a with modified := a.modified + 1 }
  | ['C'] => { a with changed := a.changed + 1 }
  | ['E'] => { a with error := a.error + 1 }
  | _ => a

/-- `_consume_complete`; nothing is given back where no item is found. -/
def consumeComplete (a : Activity) (complete : List UInt8) : Option Activity :=
  let found := itemActivity.finditer (latin complete)
  found.getLast?.map (fun last =>
    { found.foldl Activity.count a with
      lastStatus := field last 1
      lastPath := PythonText.stripWhile PythonText.isSpace (Utf8Decoding.decode (bytesOf (field last 2))) })

/-- `BorgItemActivityStreamFilter` -/
structure Filter where
  stripAddedModified : Bool
  carry : List UInt8
  activity : Activity

def Filter.feed (f : Filter) (data : List UInt8) : (List UInt8 × Option Activity) × Filter :=
  if data = [] then ((data, none), f)
  else
    let payload := f.carry ++ data
    if payload.any lineFeed then
      let activity := consumeComplete f.activity (complete lineFeed payload)
      let next := { f with carry := trailing lineFeed payload, activity := activity.getD f.activity }
      if f.stripAddedModified then
        ((bytesOf (removeAll addedModifiedLine (latin (complete lineFeed payload))), activity), next)
      else ((data, activity), next)
    else ((if f.stripAddedModified then [] else data, none), { f with carry := payload })

def Filter.finalize (f : Filter) : (List UInt8 × Option Activity) × Filter :=
  if f.carry = [] then (([], none), f)
  else
    let activity := consumeComplete f.activity f.carry
    let next := { f with carry := [], activity := activity.getD f.activity }
    if f.stripAddedModified && (addedModifiedLine.fullmatch (latin f.carry)).isSome then (([], activity), next)
    else ((if f.stripAddedModified then f.carry else [], activity), next)

def initial (strip : Bool) : Filter := ⟨strip, [], ⟨0, 0, 0, 0, [], []⟩⟩

def Filter.feedAll (f : Filter) : List (List UInt8) → List UInt8 × Filter
  | [] => ([], f)
  | chunk :: chunks =>
      let fed := f.feed chunk
      let more := fed.2.feedAll chunks
      (fed.1.1 ++ more.1, more.2)

/-- The output for a whole stream, and the counters at its end. -/
def filtered (strip : Bool) (chunks : List (List UInt8)) : List UInt8 × Activity :=
  let fed := (initial strip).feedAll chunks
  let last := fed.2.finalize
  (fed.1 ++ last.1.1, last.2.activity)

/-- The counter of a letter. -/
def Activity.counter (a : Activity) (letter : Char) : Nat :=
  if letter = 'A' then a.added
  else if letter = 'M' then a.modified
  else if letter = 'C' then a.changed
  else if letter = 'E' then a.error
  else 0

/-- The letter of a line that the item pattern matches. -/
def statusOf (line : List UInt8) : Option (List Char) :=
  (itemActivity.ends ⟨none, latin line, []⟩).head?.map (fun m => field m 1)

def isAddedOrModified (line : List UInt8) : Bool := (addedModifiedLine.fullmatch (latin line)).isSome

theorem within_gap : Within gap := rfl

theorem within_inLine : Within inLine := rfl

theorem within_remoteLabel : Within remoteLabel := by
  simp [remoteLabel, Patterns.sequence, Within, among, exactly, literal, within_gap]

theorem within_itemFields : Within itemFields := by
  simp [itemFields, Patterns.sequence, Within, Patterns.optional, plus, among, exactly, literal, within_gap,
    within_inLine, within_remoteLabel]

theorem within_addedModifiedFields : Within addedModifiedFields := by
  simp [addedModifiedFields, Patterns.sequence, Within, Patterns.optional, plus, among, within_gap,
    within_inLine, within_remoteLabel]

theorem minLength_itemFields : 0 < minLength itemFields := by decide

theorem counter_count (a : Activity) (m : Cursor) (letter : Char) (hletter : letter ∈ ['A', 'M', 'C', 'E']) :
    (a.count m).counter letter = a.counter letter + if field m 1 = [letter] then 1 else 0 := by
  simp only [List.mem_cons, List.not_mem_nil, or_false] at hletter
  rw [Activity.count]
  split
  all_goals rcases hletter with rfl | rfl | rfl | rfl <;> simp_all [Activity.counter]

theorem counter_foldl (found : List Cursor) (a : Activity) (letter : Char) (hletter : letter ∈ ['A', 'M', 'C', 'E']) :
    (found.foldl Activity.count a).counter letter = a.counter letter + found.countP
    (fun m => field m 1 = [letter]) := by
  induction found generalizing a with
  | nil => rfl
  | cons m found ih =>
      rw [List.foldl_cons, ih, counter_count a m letter hletter, List.countP_cons]
      simp only [decide_eq_true_eq]
      omega

/-- Each line that the pattern matches is found once. -/
theorem countP_found (block : List UInt8) (letter : Char) :
    (itemActivity.finditer (latin block)).countP (fun m => field m 1 = [letter]) =
      (lines lineFeed block).countP (fun line => statusOf line = some [letter]) := by
  have hfield : (fun m : Cursor => decide (field m 1 = [letter])) =
      (fun groups : List (Nat × List Char) => decide ((groups.lookup 1).getD [] = [letter])) ∘ (·.groups) := rfl
  rw [hfield, ← List.countP_map, itemActivity, finditer_groups within_itemFields minLength_itemFields, lines_latin,
    List.filterMap_map, List.countP_filterMap]
  apply List.countP_congr
  intro line _
  rw [statusOf, itemActivity]
  cases hhead : ((Pattern.seq .lineStart itemFields).ends ⟨none, latin line, []⟩).head? <;> simp [hhead, field]

theorem counter_consume (a : Activity) (block : List UInt8) (letter : Char) (hletter : letter ∈ ['A', 'M', 'C', 'E']) :
    ((consumeComplete a block).getD a).counter letter =
      a.counter letter + (lines lineFeed block).countP (fun line => statusOf line = some [letter]) := by
  rw [← countP_found, ← counter_foldl _ a letter hletter, consumeComplete]
  cases hlast : (itemActivity.finditer (latin block)).getLast? with
  | none =>
      rw [List.getLast?_eq_none_iff.mp hlast]
      rfl
  | some last => rfl

theorem consume_nil (a : Activity) : consumeComplete a [] = none := rfl

/-- Taking the lines out of a block of whole lines. -/
theorem removed_block {block : List UInt8} (h : Whole lineFeed block) :
    bytesOf (removeAll addedModifiedLine (latin block)) =
      (lines lineFeed block).flatMap (fun line => if isAddedOrModified line then [] else line) := by
  rw [addedModifiedLine, removeAll_lines within_addedModifiedFields (whole_latin h), lines_latin, List.filter_map,
    ← latin_flatten, bytesOf_latin]
  induction lines lineFeed block with
  | nil => rfl
  | cons line rest ih =>
      rw [List.filter_cons, List.flatMap_cons, ← ih, Function.comp_apply, ← addedModifiedLine]
      cases h : addedModifiedLine.fullmatch (latin line) <;> simp [isAddedOrModified, h]

theorem feed_eq {f : Filter} (hcarry : Open lineFeed f.carry) (data : List UInt8) :
    (f.feed data).1.1 = (if f.stripAddedModified then
        bytesOf (removeAll addedModifiedLine (latin (complete lineFeed (f.carry ++ data)))) else data) ∧
      (f.feed data).2 = ⟨f.stripAddedModified, trailing lineFeed (f.carry ++ data),
        (consumeComplete f.activity (complete lineFeed (f.carry ++ data))).getD f.activity⟩ := by
  rw [Filter.feed]
  split
  · next hdata =>
      subst hdata
      obtain ⟨hcomplete, htrailing⟩ := cut_open hcarry
      rw [List.append_nil, hcomplete, htrailing, consume_nil]
      refine ⟨?_, rfl⟩
      cases f.stripAddedModified <;> rfl
  · dsimp only
    split
    · cases f.stripAddedModified <;> exact ⟨rfl, rfl⟩
    · next hany =>
        have hopen : Open lineFeed (f.carry ++ data) := by
          intro b hb
          exact Bool.eq_false_iff.mpr (fun h => hany (List.any_eq_true.mpr ⟨b, hb, h⟩))
        obtain ⟨hcomplete, htrailing⟩ := cut_open hopen
        rw [hcomplete, htrailing, consume_nil]
        refine ⟨?_, rfl⟩
        cases f.stripAddedModified <;> rfl

/-- The filter reads a stream in blocks of whole lines. -/
theorem feedAll_eq {f : Filter} (hcarry : Open lineFeed f.carry) (chunks : List (List UInt8)) :
    (f.feedAll chunks).1 = (if f.stripAddedModified then
        (blocks lineFeed f.carry chunks).1.flatMap (fun block => bytesOf (removeAll addedModifiedLine (latin block)))
        else chunks.flatten) ∧
      (f.feedAll chunks).2 = ⟨f.stripAddedModified, (blocks lineFeed f.carry chunks).2,
        (blocks lineFeed f.carry chunks).1.foldl (fun a block => (consumeComplete a block).getD a) f.activity⟩ := by
  induction chunks generalizing f with
  | nil =>
      refine ⟨?_, rfl⟩
      cases f.stripAddedModified <;> rfl
  | cons chunk chunks ih =>
      obtain ⟨houtput, hnext⟩ := feed_eq hcarry chunk
      have hrest := ih (f := (f.feed chunk).2) (by rw [hnext]; exact open_trailing _)
      rw [hnext] at hrest
      rw [Filter.feedAll, houtput, hnext]
      obtain ⟨hmore, hlast⟩ := hrest
      refine ⟨?_, hlast⟩
      dsimp only
      rw [hmore]
      cases f.stripAddedModified <;> rfl

theorem counter_blocks (blocks : List (List UInt8)) (a : Activity) (letter : Char)
    (hletter : letter ∈ ['A', 'M', 'C', 'E']) :
    (blocks.foldl (fun a block => (consumeComplete a block).getD a) a).counter letter =
      a.counter letter + (blocks.flatMap (lines lineFeed)).countP (fun line => statusOf line = some [letter]) := by
  induction blocks generalizing a with
  | nil => rfl
  | cons block blocks ih =>
      rw [List.foldl_cons, ih, counter_consume a block letter hletter, List.flatMap_cons, List.countP_append]
      omega

theorem finalize_eq {f : Filter} (hcarry : Open lineFeed f.carry) :
    f.finalize.1.1 = (if f.stripAddedModified then
        (lines lineFeed f.carry).flatMap (fun line => if isAddedOrModified line then [] else line) else []) ∧
      f.finalize.2.activity = (consumeComplete f.activity f.carry).getD f.activity := by
  rw [Filter.finalize]
  by_cases hnil : f.carry = []
  · rw [if_pos hnil, hnil, consume_nil]
    refine ⟨?_, rfl⟩
    cases f.stripAddedModified <;> rfl
  · rw [if_neg hnil, lines_open hcarry hnil]
    cases hstrip : f.stripAddedModified <;> cases hfull : addedModifiedLine.fullmatch (latin f.carry) <;>
      simp [isAddedOrModified, hfull]

/-- However a stream is cut: in strip mode the lines of added and modified
items are left out of the log, else the log is the stream, and each counter is
the number of lines with its letter. -/
theorem filtered_eq (strip : Bool) (chunks : List (List UInt8)) :
    (filtered strip chunks).1 = (if strip then
        ((lines lineFeed chunks.flatten).filter (fun line => !isAddedOrModified line)).flatten else chunks.flatten) ∧
      ∀ letter ∈ ['A', 'M', 'C', 'E'], (filtered strip chunks).2.counter letter =
        (lines lineFeed chunks.flatten).countP (fun line => statusOf line = some [letter]) := by
  obtain ⟨houtput, hnext⟩ := feedAll_eq (f := initial strip) open_nil chunks
  have hopen : Open lineFeed ((initial strip).feedAll chunks).2.carry := by
    rw [hnext]
    exact open_blocks open_nil
  obtain ⟨hfinal, hactivity⟩ := finalize_eq hopen
  constructor
  · rw [filtered, houtput, hfinal, hnext]
    cases strip with
    | false => exact List.append_nil _
    | true =>
        have hlines (l : List (List UInt8)) : (l.filter (fun line => !isAddedOrModified line)).flatten =
            l.flatMap (fun line => if isAddedOrModified line then [] else line) := by
          induction l with
          | nil => rfl
          | cons line l ih =>
              rw [List.filter_cons, List.flatMap_cons, ← ih]
              cases isAddedOrModified line <;> rfl
        have hblocks : (blocks lineFeed [] chunks).1.flatMap
          (fun block => bytesOf (removeAll addedModifiedLine (latin block))) =
            ((blocks lineFeed [] chunks).1.flatMap (lines lineFeed)).flatMap
              (fun line => if isAddedOrModified line then [] else line) := by
          rw [List.flatMap_assoc]
          exact List.flatMap_congr (fun block hblock => removed_block (whole_of_mem_blocks block hblock))
        simp only [initial, if_true]
        rw [hblocks, hlines, ← lines_blocks, List.flatMap_append]
  · intro letter hletter
    rw [filtered, hactivity, counter_consume _ _ letter hletter, hnext, initial, counter_blocks _ _ letter hletter,
      ← lines_blocks, List.countP_append]
    simp [Activity.counter]

end BorgManager.ItemActivity
