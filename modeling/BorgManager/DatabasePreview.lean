import BorgManager.BytePatterns
import BorgManager.Utf8Decoding

namespace BorgManager.DatabasePreview

open Patterns ByteLines LinePatterns BytePatterns Utf8Decoding

def statusLetters : String := "AMUCERdbchsfipx?+-."

/-- `_SQLITE_BORG_ITEM_LINE_BYTES_RE`, which is matched at the start of a line. -/
def itemStart : Pattern :=
  sequence [.many true gap, optional remoteLabel, among statusLetters, plus true gap, .char (fun c => !isBlank c)]

def itemFields : Pattern :=
  sequence [.many true gap, optional remoteLabel, among statusLetters, plus true gap, .many true inLine]

/-- `_SQLITE_ONLY_BORG_ITEM_BLOCK_BYTES_RE` -/
def onlyItemBlock : Pattern := plus true (.seq itemFields newline)

/-- A line that starts like the line of an item. -/
def itemLine (line : List UInt8) : Bool := !(itemStart.ends ⟨none, latin line, []⟩).isEmpty

def itemBlock (block : List UInt8) : Bool := (onlyItemBlock.fullmatch (latin block)).isSome

section Filter

variable {α : Type} (byte : α → UInt8)

/-- What is kept of some whole lines. The elements carry the bytes that are
looked at, and nothing is done with what else they carry. -/
def keptOf (complete : List α) : List α :=
  if itemBlock (complete.map byte) then []
  else ((pieces (fun x => carriageReturn (byte x)) (fun x => lineFeed (byte x)) complete).filter
    (fun line => !itemLine (line.map byte))).flatten

/-- `feed` of `_BackupSqlitePreviewFilter`: what is kept, and the carry. -/
def feed (carry data : List α) : List α × List α :=
  if data = [] then ([], carry)
  else if (carry ++ data).any (fun x => lineFeed (byte x)) then
    (keptOf byte (complete (fun x => lineFeed (byte x)) (carry ++ data)), trailing (fun x => lineFeed (byte x))
      (carry ++ data))
  else ([], carry ++ data)

def finalize (carry : List α) : List α :=
  if carry = [] ∨ itemLine (carry.map byte) then [] else carry

/-- What each call keeps of a stream. -/
def keptFrom (carry : List α) : List (List α) → List (List α)
  | [] => [finalize byte carry]
  | chunk :: chunks => (feed byte carry chunk).1 :: keptFrom (feed byte carry chunk).2 chunks

/-- The preview: what each call keeps is decoded. -/
def preview (chunks : List (List α)) : List Char :=
  (keptFrom byte [] chunks).flatMap (fun kept => decode (kept.map byte))

end Filter

/-- The lines of a stream, with each byte beside the line that it belongs to. -/
def tagged (stream : List UInt8) : List (UInt8 × List UInt8) :=
  (lines lineFeed stream).flatMap (fun line => line.map (fun b => (b, line)))

theorem within_itemFields : Within itemFields := by
  simp [itemFields, Patterns.sequence, Within, Patterns.optional, plus, among, statusLetters, gap, inLine,
    remoteLabel, exactly, literal]

theorem avoids_itemFields : Avoids '\r' itemFields := by
  simp [itemFields, Patterns.sequence, Avoids, Patterns.optional, plus, among, statusLetters, gap, inLine,
    remoteLabel, exactly, literal]

/-- A block of items is a block of lines that are each such a block. -/
theorem itemBlock_lines {block : List UInt8} (hwhole : Whole lineFeed block) (hne : block ≠ []) :
    itemBlock block = true ↔ ∀ line ∈ lines lineFeed block, itemBlock line = true := by
  have hlatin {text : List UInt8} (hwhole : Whole lineFeed text) (hne : text ≠ []) : itemBlock text = true ↔
      ∀ line ∈ lines lineFeed text, ((Pattern.seq itemFields newline).fullmatch (latin line)).isSome = true := by
    rw [itemBlock, onlyItemBlock, block_lines within_itemFields lineEnding_newline (whole_latin hwhole)
      (by simpa [latin] using hne),
      lines_latin]
    simp
  rw [hlatin hwhole hne]
  refine forall₂_congr (fun line hline => ?_)
  obtain ⟨body, x, rfl, hopen, hx⟩ := line_of_whole hwhole hline
  rw [hlatin (by simp [Whole, hx]) (by simp), lines_line hopen hx]
  simp

theorem itemBlock_nil : itemBlock [] = false := by decide

theorem isReturn_latin (b : UInt8) : (Char.ofNat b.toNat == '\r') = carriageReturn b := by
  revert b
  exact forall_byte (by decide +kernel)

/-- A line of an item block has no carriage return but the one before its end. -/
theorem pieces_itemBlock {body : List UInt8} {x : UInt8} (hopen : Open lineFeed body) (hx : lineFeed x = true)
    (hblock : itemBlock (body ++ [x]) = true) : pieces carriageReturn lineFeed (body ++ [x]) = [body ++ [x]] := by
  have hwhole : Whole lineFeed (body ++ [x]) := by simp [Whole, hx]
  rw [itemBlock, onlyItemBlock, block_lines within_itemFields lineEnding_newline (whole_latin hwhole) (by simp [latin]),
    lines_latin, lines_line hopen hx, List.map_singleton] at hblock
  have hlatin : latin (body ++ [x]) = latin body ++ ['\n'] := by
    rw [latin, latin, List.map_append, eq_of_beq hx]
    rfl
  have hopenLatin : Open isNewline (latin body) := by
    intro c hc
    obtain ⟨b, hb, rfl⟩ := List.mem_map.mp hc
    rw [isNewline_latin]
    exact hopen b hb
  have hmatch := hblock _ (List.mem_singleton_self _)
  rw [hlatin, line_fullmatch within_itemFields lineEnding_newline hopenLatin] at hmatch
  obtain ⟨d, hd, hform⟩ := hmatch
  obtain ⟨word, hword, hreturn⟩ := ends_consumed avoids_itemFields hd
  obtain ⟨w, r, rfl, rfl, hr⟩ := List.map_eq_append_iff.mp hword
  have hw : Open (fun b => carriageReturn b || lineFeed b) w := by
    intro b hb
    have hcr : carriageReturn b = false := by
      rw [← isReturn_latin, Bool.eq_false_iff]
      intro heq
      exact hreturn (List.mem_map.mpr ⟨b, hb, eq_of_beq heq⟩)
    exact Bool.or_eq_false_iff.mpr ⟨hcr, hopen b (List.mem_append_left _ hb)⟩
  rw [List.append_assoc]
  apply pieces_line hw
  rw [← hr] at hform
  cases r with
  | nil => rfl
  | cons c r =>
      obtain ⟨hreturned, hnil⟩ : (Char.ofNat c.toNat == '\r') = true ∧ r = [] := by simpa using hform
      rw [isReturn_latin] at hreturned
      rw [hnil, List.singleton_append, pieces, hreturned, hx]
      rfl

section Runs

variable {α : Type} {byte : α → UInt8}

/-- What the line path keeps of a line. -/
def keptLine (byte : α → UInt8) (line : List α) : List α :=
  ((pieces (fun x => carriageReturn (byte x)) (fun x => lineFeed (byte x)) line).filter
    (fun part => !itemLine (part.map byte))).flatten

theorem feed_disjoint (x : α) (h : lineFeed (byte x) = true) : carriageReturn (byte x) = false := by
  rw [carriageReturn, eq_of_beq h]
  rfl

/-- The line path goes line by line. -/
theorem keptOf_lines {text : List α} (hwhole : Whole (fun x => lineFeed (byte x)) text)
    (hblock : itemBlock (text.map byte) = false) :
    keptOf byte text = (lines (fun x => lineFeed (byte x)) text).flatMap (keptLine byte) := by
  rw [keptOf, hblock, if_neg Bool.false_ne_true]
  clear hblock
  induction text using line_induction (p := fun x => lineFeed (byte x)) with
  | nil => rfl
  | last body hbody hne => exact absurd (hbody.eq_nil_of_whole hwhole) hne
  | line body x rest hbody hx ih =>
      have hline : Whole (fun x => lineFeed (byte x)) (body ++ [x]) := by simp [Whole, hx]
      have hrest : Whole (fun x => lineFeed (byte x)) rest := by
        intro y hy
        apply hwhole y
        rw [List.append_cons, List.getLast?_append, hy]
        rfl
      rw [List.append_cons, pieces_append feed_disjoint hline, List.filter_append, List.flatten_append, ih hrest,
        lines_append hline, lines_line hbody hx, List.flatMap_append, List.flatMap_singleton, keptLine]

theorem keptOf_nil : keptOf byte ([] : List α) = [] := by
  rw [keptOf]
  split <;> rfl

theorem feed_eq {carry : List α} (hcarry : Open (fun x => lineFeed (byte x)) carry) (data : List α) :
    feed byte carry data = (keptOf byte (complete (fun x => lineFeed (byte x)) (carry ++ data)),
      trailing (fun x => lineFeed (byte x)) (carry ++ data)) := by
  rw [feed]
  split
  · next hdata =>
      obtain ⟨hcomplete, htrailing⟩ := cut_open hcarry
      rw [hdata, List.append_nil, hcomplete, htrailing, keptOf_nil]
  · split
    · rfl
    · next hany =>
        have hopen : Open (fun x => lineFeed (byte x)) (carry ++ data) := by
          intro x hx
          exact Bool.eq_false_iff.mpr (fun h => hany (List.any_eq_true.mpr ⟨x, hx, h⟩))
        obtain ⟨hcomplete, htrailing⟩ := cut_open hopen
        rw [hcomplete, htrailing, keptOf_nil]

/-- The filter reads a stream in blocks of whole lines. -/
theorem keptFrom_eq {carry : List α} (hcarry : Open (fun x => lineFeed (byte x)) carry) (chunks : List (List α)) :
    keptFrom byte carry chunks = (blocks (fun x => lineFeed (byte x)) carry chunks).1.map (keptOf byte) ++
      [finalize byte (blocks (fun x => lineFeed (byte x)) carry chunks).2] := by
  induction chunks generalizing carry with
  | nil => rfl
  | cons chunk chunks ih => rw [keptFrom, feed_eq hcarry, ih (open_trailing _), blocks, List.map_cons, List.cons_append]

end Runs

/-- A text that is not cut in a character: it is empty or ends with an ASCII byte. -/
def Ended (bytes : List UInt8) : Prop := ∀ b ∈ bytes.getLast?, b.toNat < 0x80

theorem decode_ended {bytes : List UInt8} (h : Ended bytes) (more : List UInt8) :
    decode (bytes ++ more) = decode bytes ++ decode more := by
  rw [decode_append_iff]
  rintro ⟨p, hp, -⟩
  cases bytes using List.reverseRecOn with
  | nil => cases hp
  | append_singleton bytes b =>
      have hb : b.toNat < 0x80 := h b (by simp)
      have hafter (q : Option Unfinished) (bs : List UInt8) : after q (bs ++ [b]) = none := by
        induction bs generalizing q with
        | nil =>
            cases q with
            | none => simp [after, step, lead, hb]
            | some q =>
                have hnot : ¬ q.Continues b := fun hc => by have := q.lowest; have := hc.1; omega
                simp [after, step, hnot, lead, hb]
        | cons c bs ih => exact ih _
      rw [hafter] at hp
      cases hp

theorem decode_flatten {texts : List (List UInt8)} (h : ∀ text ∈ texts, Ended text) :
    decode texts.flatten = texts.flatMap decode := by
  induction texts with
  | nil => rfl
  | cons text texts ih =>
      rw [List.flatten_cons, decode_ended (h text (List.mem_cons_self ..)),
        ih (fun t ht => h t (List.mem_cons_of_mem _ ht)),
        List.flatMap_cons]

/-- A line that both paths treat alike: if the block path drops it, the line path
does, and if it starts like an item, then each of its parts does. -/
structure LineSafe (line : List UInt8) : Prop where
  block : itemBlock line = true → itemLine line = true
  parts : itemLine line = true → ∀ part ∈ pieces carriageReturn lineFeed line, itemLine part = true

section Runs

variable {α : Type} {byte : α → UInt8}

theorem keptLine_safe {line : List α} (h : LineSafe (line.map byte)) (hitem : itemLine (line.map byte) = true) :
    keptLine byte line = [] := by
  rw [keptLine, List.flatten_eq_nil_iff]
  intro part hpart
  obtain ⟨hpieces, hkept⟩ := List.mem_filter.mp hpart
  have hmapped : part.map byte ∈ pieces carriageReturn lineFeed (line.map byte) := by
    rw [pieces_map]
    exact List.mem_map_of_mem hpieces
  rw [h.parts hitem _ hmapped] at hkept
  cases hkept

theorem map_mem_lines {text line : List α} (h : line ∈ lines (fun x => lineFeed (byte x)) text) :
    line.map byte ∈ lines lineFeed (text.map byte) := by
  rw [lines_map (fun x => rfl)]
  exact List.mem_map_of_mem h

/-- On safe lines the block path does what the line path does. -/
theorem keptOf_safe {text : List α} (hwhole : Whole (fun x => lineFeed (byte x)) text)
    (hsafe : ∀ line ∈ lines (fun x => lineFeed (byte x)) text, LineSafe (line.map byte)) :
    keptOf byte text = (lines (fun x => lineFeed (byte x)) text).flatMap (keptLine byte) := by
  cases hblock : itemBlock (text.map byte) with
  | false => exact keptOf_lines hwhole hblock
  | true =>
      have hne : text.map byte ≠ [] := by
        intro hnil
        rw [hnil, itemBlock_nil] at hblock
        cases hblock
      have hlines := (itemBlock_lines (whole_map.mpr hwhole) hne).mp hblock
      rw [keptOf, hblock, if_pos rfl]
      symm
      rw [List.flatMap_eq_nil_iff]
      intro line hline
      exact keptLine_safe (hsafe line hline) ((hsafe line hline).block (hlines _ (map_mem_lines hline)))

theorem ended_keptLine {line : List α} (hwhole : Whole (fun x => lineFeed (byte x)) line) :
    Ended ((keptLine byte line).map byte) := by
  have hkept : Whole (fun x => carriageReturn (byte x) || lineFeed (byte x)) (keptLine byte line) :=
    whole_flatten (fun part hpart => (whole_of_mem_pieces hwhole (List.mem_filter.mp hpart).1).1)
  intro b hb
  rw [List.getLast?_map] at hb
  obtain ⟨x, hx, rfl⟩ := Option.map_eq_some_iff.mp hb
  rcases Bool.or_eq_true_iff.mp (hkept x hx) with hcr | hlf
  · rw [eq_of_beq hcr]; decide
  · rw [eq_of_beq hlf]; decide

theorem decode_keptLines {text : List α} (hwhole : Whole (fun x => lineFeed (byte x)) text) :
    decode (((lines (fun x => lineFeed (byte x)) text).flatMap (keptLine byte)).map byte) =
      (lines (fun x => lineFeed (byte x)) text).flatMap (fun line => decode ((keptLine byte line).map byte)) := by
  rw [List.map_flatMap, List.flatMap_def, decode_flatten, List.flatMap_map]
  intro kept hkept
  obtain ⟨line, hline, rfl⟩ := List.mem_map.mp hkept
  obtain ⟨body, x, rfl, -, hx⟩ := line_of_whole hwhole hline
  exact ended_keptLine (by simp [Whole, hx])

theorem preview_eq (chunks : List (List α)) :
    preview byte chunks =
      (blocks (fun x => lineFeed (byte x)) [] chunks).1.flatMap (fun block => decode ((keptOf byte block).map byte)) ++
        decode ((finalize byte (trailing (fun x => lineFeed (byte x)) chunks.flatten)).map byte) := by
  rw [preview, keptFrom_eq open_nil, (blocks_eq chunks).2, List.flatMap_append, List.flatMap_map,
    List.flatMap_singleton]

/-- The condition on a stream: its whole lines are all lines of item blocks, or
both paths treat each of them alike. -/
def Alike (stream : List UInt8) : Prop :=
  (∀ line ∈ lines lineFeed (complete lineFeed stream), itemBlock line = true) ∨
    ∀ line ∈ lines lineFeed (complete lineFeed stream), LineSafe line

theorem block_facts {chunks : List (List α)} {block : List α}
    (hblock : block ∈ (blocks (fun x => lineFeed (byte x)) [] chunks).1) :
    Whole (fun x => lineFeed (byte x)) block ∧ ∀ line ∈ lines (fun x => lineFeed (byte x)) block,
      line.map byte ∈ lines lineFeed (complete lineFeed (chunks.flatten.map byte)) := by
  refine ⟨whole_of_mem_blocks block hblock, fun line hline => ?_⟩
  have hmem := map_mem_lines (mem_lines_blocks hblock hline)
  rwa [← (cut_map chunks.flatten).1] at hmem

theorem keptOf_itemBlock {text : List α} (hwhole : Whole (fun x => lineFeed (byte x)) text)
    (hall : ∀ line ∈ lines (fun x => lineFeed (byte x)) text, itemBlock (line.map byte) = true) :
    keptOf byte text = [] := by
  by_cases hne : text = []
  · rw [hne, keptOf_nil]
  · have hblock : itemBlock (text.map byte) = true := by
      rw [itemBlock_lines (whole_map.mpr hwhole) (by simpa using hne), lines_map (fun x => rfl)]
      intro line hline
      obtain ⟨l, hl, rfl⟩ := List.mem_map.mp hline
      exact hall l hl
    rw [keptOf, if_pos hblock]

/-- Then the preview is that of the stream as a whole. -/
theorem preview_alike {chunks : List (List α)} (h : Alike (chunks.flatten.map byte)) :
    preview byte chunks = preview byte [chunks.flatten] := by
  have hsame : [chunks.flatten].flatten = chunks.flatten := List.flatten_singleton
  rw [preview_eq, preview_eq, hsame]
  refine congrArg (· ++ _) ?_
  rcases h with hall | hsafe
  · have hnone {chunks' : List (List α)} (heq : chunks'.flatten = chunks.flatten) :
        (blocks (fun x => lineFeed (byte x)) [] chunks').1.flatMap
          (fun block => decode ((keptOf byte block).map byte)) = [] := by
      rw [List.flatMap_eq_nil_iff]
      intro block hblock
      obtain ⟨hwhole, hlines⟩ := block_facts hblock
      rw [heq] at hlines
      rw [keptOf_itemBlock hwhole (fun line hline => hall _ (hlines line hline))]
      rfl
    rw [hnone rfl, hnone hsame]
  · have hlines {chunks' : List (List α)} (heq : chunks'.flatten = chunks.flatten) :
        (blocks (fun x => lineFeed (byte x)) [] chunks').1.flatMap
          (fun block => decode ((keptOf byte block).map byte)) =
          (lines (fun x => lineFeed (byte x)) (complete (fun x => lineFeed (byte x)) chunks'.flatten)).flatMap
            (fun line => decode ((keptLine byte line).map byte)) := by
      apply flatMap_blocks
      intro block hblock
      obtain ⟨hwhole, hmem⟩ := block_facts hblock
      rw [heq] at hmem
      rw [keptOf_safe hwhole (fun line hline => hsafe _ (hmem line hline)), decode_keptLines hwhole]
    rw [hlines rfl, hlines hsame, hsame]

end Runs

theorem map_fst_line (line tag : List UInt8) : (line.map (fun b => (b, tag))).map Prod.fst = line := by
  rw [List.map_map]
  exact List.map_id line

theorem map_fst_tagged (stream : List UInt8) : (tagged stream).map Prod.fst = stream := by
  rw [tagged, List.map_flatMap]
  simp only [map_fst_line]
  rw [List.flatMap_id', flatten_lines]

/-- The lines of a tagged stream carry themselves. -/
theorem lines_tagged (stream : List UInt8) :
    lines (fun x : UInt8 × List UInt8 => lineFeed x.1) (tagged stream) =
      (lines lineFeed stream).map (fun line => line.map (fun b => (b, line))) := by
  have hopen {body : List UInt8} (h : Open lineFeed body) (line : List UInt8) :
      Open (fun x : UInt8 × List UInt8 => lineFeed x.1) (body.map (fun b => (b, line))) := open_map.mpr h
  induction stream using line_induction (p := lineFeed) with
  | nil => rfl
  | last body hbody hne =>
      rw [tagged, lines_open hbody hne, List.flatMap_singleton, lines_open (hopen hbody _) (by simpa using hne),
      List.map_singleton]
  | line body x rest hbody hx ih =>
      have hline : Whole lineFeed (body ++ [x]) := by simp [Whole, hx]
      have htagged : tagged (body ++ [x] ++ rest) = (body ++ [x]).map (fun b => (b, body ++ [x])) ++ tagged rest := by
        rw [tagged, tagged, lines_append hline, lines_line hbody hx, List.flatMap_append, List.flatMap_singleton]
      have hwhole : Whole (fun x : UInt8 × List UInt8 => lineFeed x.1)
          ((body ++ [x]).map (fun b => (b, body ++ [x]))) :=
        whole_map.mpr hline
      rw [List.append_cons, htagged, lines_append hwhole, ih, lines_append hline, lines_line hbody hx,
        List.map_append, List.map_append, List.map_singleton, lines_line (hopen hbody _) hx]
      simp

/-- No byte of a line that starts like an item is kept. -/
theorem no_leak {stream : List UInt8} (h : Alike stream) {chunks : List (List (UInt8 × List UInt8))}
    (hchunks : chunks.flatten = tagged stream) {kept : List (UInt8 × List UInt8)}
    (hkept : kept ∈ keptFrom Prod.fst [] chunks) {x : UInt8 × List UInt8} (hx : x ∈ kept) : itemLine x.2 = false := by
  have hmap : chunks.flatten.map Prod.fst = stream := by rw [hchunks, map_fst_tagged]
  have htag {line : List (UInt8 × List UInt8)}
    (hline : line ∈ lines (fun x : UInt8 × List UInt8 => lineFeed x.1) chunks.flatten)
      (hx : x ∈ line) : line.map Prod.fst = x.2 := by
    rw [hchunks, lines_tagged] at hline
    obtain ⟨l, -, rfl⟩ := List.mem_map.mp hline
    obtain ⟨b, -, rfl⟩ := List.mem_map.mp hx
    exact map_fst_line l l
  rw [keptFrom_eq open_nil, (blocks_eq chunks).2] at hkept
  rcases List.mem_append.mp hkept with hkept | hkept
  · obtain ⟨block, hblock, rfl⟩ := List.mem_map.mp hkept
    obtain ⟨hwhole, hmem⟩ := block_facts hblock
    rw [hmap] at hmem
    rcases h with hall | hsafe
    · rw [keptOf_itemBlock hwhole (fun line hline => hall _ (hmem line hline))] at hx
      cases hx
    · rw [keptOf_safe hwhole (fun line hline => hsafe _ (hmem line hline))] at hx
      obtain ⟨line, hline, hx⟩ := List.mem_flatMap.mp hx
      have hin : x ∈ line := by
        obtain ⟨part, hpart, hx⟩ := List.mem_flatten.mp hx
        rw [← @flatten_pieces _ (fun x => carriageReturn x.1) (fun x => lineFeed x.1) line]
        exact List.mem_flatten.mpr ⟨part, (List.mem_filter.mp hpart).1, hx⟩
      have hwholeLine : line ∈ lines (fun x : UInt8 × List UInt8 => lineFeed x.1) chunks.flatten := by
        rw [← lines_cut]
        exact List.mem_append_left _ (mem_lines_blocks hblock hline)
      rw [← htag hwholeLine hin, Bool.eq_false_iff]
      intro hitem
      rw [keptLine_safe (hsafe _ (hmem line hline)) hitem] at hx
      cases hx
  · rw [List.mem_singleton.mp hkept, finalize] at hx
    split at hx
    · cases hx
    · next hnot =>
        rw [not_or] at hnot
        have hlast : trailing (fun x : UInt8 × List UInt8 => lineFeed x.1) chunks.flatten ∈
            lines (fun x : UInt8 × List UInt8 => lineFeed x.1) chunks.flatten := by
          rw [← lines_cut chunks.flatten, lines_open (open_trailing _) hnot.1]
          simp
        rw [← htag hlast hx]
        exact Bool.eq_false_iff.mpr hnot.2

/-- What else the elements carry does not matter for what is kept. -/
theorem keptOf_map {α : Type} {byte : α → UInt8} (text : List α) :
    (keptOf byte text).map byte = keptOf (fun b => b) (text.map byte) := by
  rw [keptOf, keptOf, List.map_id']
  split
  · rfl
  · rw [pieces_map, List.filter_map, List.map_flatten]
    simp only [List.map_id']
    rfl

theorem preview_map {α : Type} {byte : α → UInt8} (chunks : List (List α)) :
    preview byte chunks = preview (fun b => b) (chunks.map (List.map byte)) := by
  have hkept {carry : List α} (hcarry : Open (fun x => lineFeed (byte x)) carry) :
      (keptFrom byte carry chunks).map (List.map byte) = keptFrom (fun b => b) (carry.map byte)
        (chunks.map (List.map byte)) := by
    induction chunks generalizing carry with
    | nil =>
        simp only [keptFrom, finalize, List.map_cons, List.map_nil, List.map_id', List.map_eq_nil_iff]
        split <;> rfl
    | cons chunk chunks ih =>
        have hcut := cut_map (p := lineFeed) (f := byte) (carry ++ chunk)
        rw [List.map_append] at hcut
        have hfeed := @feed_eq _ (fun b => b) (carry.map byte) (open_map.mpr hcarry) (chunk.map byte)
        rw [hcut.1, hcut.2, ← keptOf_map] at hfeed
        rw [keptFrom, List.map_cons, List.map_cons, keptFrom, feed_eq hcarry, hfeed, ih (open_trailing _)]
  have hall := @hkept [] open_nil
  rw [List.map_nil] at hall
  rw [preview, preview, ← hall, List.flatMap_map]
  simp only [List.map_id']

/-- Nothing that is longer elsewhere makes up for what is shorter somewhere. -/
theorem length_flatMap_eq {α β : Type} {f g : α → List β} {l : List α} (hle : ∀ x ∈ l, (g x).length ≤ (f x).length)
    (h : (l.flatMap f).length = (l.flatMap g).length) : ∀ x ∈ l, (f x).length = (g x).length := by
  have hsum {l : List α} (hle : ∀ x ∈ l, (g x).length ≤ (f x).length) : (l.flatMap g).length ≤
      (l.flatMap f).length := by
    induction l with
    | nil => exact Nat.le_refl _
    | cons x l ih =>
        have hx := hle x (List.mem_cons_self ..)
        have hl := ih (fun y hy => hle y (List.mem_cons_of_mem _ hy))
        rw [List.flatMap_cons, List.flatMap_cons, List.length_append, List.length_append]
        omega
  induction l with
  | nil => rintro x ⟨⟩
  | cons y l ih =>
      have hy := hle y (List.mem_cons_self ..)
      have hrest := hsum (fun z hz => hle z (List.mem_cons_of_mem _ hz))
      rw [List.flatMap_cons, List.flatMap_cons, List.length_append, List.length_append] at h
      intro x hx
      rcases List.mem_cons.mp hx with rfl | hx
      · omega
      · exact ih (fun z hz => hle z (List.mem_cons_of_mem _ hz)) (by omega) x hx

theorem keptOf_line {body : List UInt8} {x : UInt8} (hbody : Open lineFeed body) (hx : lineFeed x = true) :
    keptOf (fun b => b) (body ++ [x]) = if itemBlock (body ++ [x]) then [] else keptLine (fun b => b)
      (body ++ [x]) := by
  cases hblock : itemBlock (body ++ [x]) with
  | true =>
      rw [keptOf, List.map_id', hblock]
      rfl
  | false =>
      have hwhole : Whole lineFeed (body ++ [x]) := by simp [Whole, hx]
      rw [keptOf_lines hwhole (by rw [List.map_id', hblock]), lines_line hbody hx, List.flatMap_singleton]
      rfl

/-- If the chunks do not matter and some line is no line of an item block, then
each line of an item block starts like an item. -/
theorem item_of_block {stream : List UInt8}
    (hsame : ∀ a b : List (List UInt8), a.flatten = stream → b.flatten = stream →
      preview (fun b => b) a = preview (fun b => b) b)
    (hmixed : ¬ ∀ line ∈ lines lineFeed (complete lineFeed stream), itemBlock line = true) {line : List UInt8}
    (hline : line ∈ lines lineFeed (complete lineFeed stream)) (hblock : itemBlock line = true) :
    itemLine line = true := by
  have hwhole := whole_complete (p := lineFeed) stream
  have hlineWhole : ∀ l ∈ lines lineFeed (complete lineFeed stream), Whole lineFeed l := by
    intro l hl
    obtain ⟨body, x, rfl, -, hx⟩ := line_of_whole hwhole hl
    simp [Whole, hx]
  have hlines : (lines lineFeed (complete lineFeed stream) ++ [trailing lineFeed stream]).flatten = stream := by
    rw [List.flatten_append, flatten_lines, List.flatten_singleton, complete_append_trailing]
  have hnotBlock : itemBlock ((complete lineFeed stream).map (fun b => b)) = false := by
    rw [List.map_id', Bool.eq_false_iff]
    intro hall
    by_cases hnil : complete lineFeed stream = []
    · rw [hnil] at hline
      cases hline
    · exact hmixed ((itemBlock_lines hwhole hnil).mp hall)
  have heq := hsame [stream] (lines lineFeed (complete lineFeed stream) ++ [trailing lineFeed stream])
    (List.flatten_singleton) hlines
  rw [preview_eq, preview_eq, hlines, List.flatten_singleton] at heq
  have hone : (blocks lineFeed [] [stream]).1 = [complete lineFeed stream] := rfl
  have hmany : (blocks lineFeed [] (lines lineFeed (complete lineFeed stream) ++ [trailing lineFeed stream])).1 =
      lines lineFeed (complete lineFeed stream) ++ [[]] := by
    rw [blocks_whole hlineWhole, blocks, List.nil_append, (cut_open (open_trailing stream)).1]
    rfl
  have heq := List.append_cancel_right heq
  rw [show (fun x => lineFeed x) = lineFeed from rfl, hone, hmany, List.flatMap_singleton,
    keptOf_lines hwhole hnotBlock,
    decode_keptLines hwhole, List.flatMap_append, List.flatMap_singleton, keptOf_nil] at heq
  have hlength := congrArg List.length heq
  rw [List.map_nil, show decode [] = [] from rfl, List.append_nil] at hlength
  by_contra hitem
  obtain ⟨body, x, rfl, hbody, hx⟩ := line_of_whole hwhole hline
  have hshort := length_flatMap_eq (l := lines lineFeed (complete lineFeed stream)) ?_ hlength _ hline
  · rw [keptOf_line hbody hx, if_pos hblock, keptLine, pieces_itemBlock hbody hx hblock] at hshort
    rw [show decode (List.map (fun b => b) ([] : List UInt8)) = [] from rfl] at hshort
    have hkept : ([body ++ [x]].filter (fun part => !itemLine (part.map (fun b => b)))).flatten = body ++ [x] := by
      simp [Bool.eq_false_iff.mpr hitem]
    rw [hkept, List.map_id', decode_append_iff body [x] |>.mpr ?_, eq_of_beq hx, List.length_append] at hshort
    · exact absurd hshort (by simp [show (decode [10]).length = 1 from rfl])
    · rintro ⟨q, -, y, hy, hcontinues⟩
      have hyx : x = y := by simpa using hy
      have hlow := q.lowest
      have hcont := hcontinues.1
      rw [← hyx, eq_of_beq hx] at hcont
      have hten : (10 : UInt8).toNat = 10 := rfl
      omega
  · intro l hl
    obtain ⟨body, x, rfl, hbody, hx⟩ := line_of_whole hwhole hl
    rw [keptOf_line hbody hx]
    split
    · exact Nat.zero_le _
    · exact Nat.le_refl _

/-- If nothing leaks, the parts of a line that starts like an item do so too. -/
theorem item_of_part {stream : List UInt8}
    (hnone : ∀ kept ∈ keptFrom Prod.fst [] [tagged stream], ∀ x ∈ kept, itemLine x.2 = false)
    {line : List UInt8} (hline : line ∈ lines lineFeed (complete lineFeed stream)) (hitem : itemLine line = true)
    {part : List UInt8} (hpart : part ∈ pieces carriageReturn lineFeed line) : itemLine part = true := by
  have hwhole := whole_complete (p := lineFeed) stream
  obtain ⟨body, x, rfl, hbody, hx⟩ := line_of_whole hwhole hline
  by_contra hplain
  have hcut := cut_map (p := lineFeed) (f := Prod.fst) (tagged stream)
  rw [map_fst_tagged] at hcut
  have hnotBlock : itemBlock ((complete (fun x => lineFeed (Prod.fst x)) (tagged stream)).map Prod.fst) = false := by
    rw [← hcut.1, Bool.eq_false_iff]
    intro hblock
    have hne : complete lineFeed stream ≠ [] := by
      intro hnil
      rw [hnil] at hline
      cases hline
    have hlineBlock := (itemBlock_lines hwhole hne).mp hblock _ hline
    rw [pieces_itemBlock hbody hx hlineBlock, List.mem_singleton] at hpart
    rw [hpart] at hplain
    exact hplain hitem
  have htag : (body ++ [x]).map (fun b => (b, body ++ [x])) ∈
      lines (fun y : UInt8 × List UInt8 => lineFeed y.1)
        (complete (fun y => lineFeed (Prod.fst y)) (tagged stream)) := by
    have hall : (body ++ [x]).map (fun b => (b, body ++ [x])) ∈
        lines (fun y : UInt8 × List UInt8 => lineFeed y.1) (tagged stream) := by
      rw [lines_tagged]
      refine List.mem_map.mpr ⟨body ++ [x], ?_, rfl⟩
      rw [← lines_cut]
      exact List.mem_append_left _ hline
    rw [← lines_cut (tagged stream)] at hall
    rcases List.mem_append.mp hall with hall | hall
    · exact hall
    · have hopen := open_trailing (p := fun y : UInt8 × List UInt8 => lineFeed y.1) (tagged stream)
      rw [lines_open hopen (by rintro hnil; rw [hnil] at hall; cases hall), List.mem_singleton] at hall
      have hlast := hopen (x, body ++ [x]) (by rw [← hall]; simp)
      exact absurd (hx.symm.trans hlast) (by simp)
  have hpartTagged : part.map (fun b => (b, body ++ [x])) ∈
      pieces (fun y => carriageReturn (Prod.fst y)) (fun y => lineFeed (Prod.fst y))
        ((body ++ [x]).map (fun b => (b, body ++ [x]))) := by
    rw [pieces_map]
    exact List.mem_map_of_mem hpart
  have hne := (whole_of_mem_pieces (by simp [Whole, hx]) hpart).2
  obtain ⟨b, rest, rfl⟩ := List.exists_cons_of_ne_nil hne
  have hkept : (b, body ++ [x]) ∈ keptOf Prod.fst (complete (fun y => lineFeed (Prod.fst y)) (tagged stream)) := by
    rw [keptOf_lines (whole_complete _) hnotBlock]
    refine List.mem_flatMap.mpr
      ⟨_, htag, List.mem_flatten.mpr ⟨_, List.mem_filter.mpr ⟨hpartTagged, ?_⟩, List.mem_cons_self ..⟩⟩
    rw [map_fst_line, Bool.eq_false_iff.mpr hplain]
    rfl
  have hrun := @keptFrom_eq _ Prod.fst _ open_nil [tagged stream]
  have hfalse := hnone _
    (by rw [hrun]; exact List.mem_append_left _ (List.mem_map_of_mem (List.mem_singleton_self _))) _ hkept
  rw [hitem] at hfalse
  cases hfalse

/-- The preview of a stream has no byte of a line that starts like an item and
does not depend on the chunks, exactly if both paths treat its lines alike. -/
theorem preview_safe_iff (stream : List UInt8) :
    ((∀ chunks, chunks.flatten = tagged stream → ∀ kept ∈ keptFrom Prod.fst [] chunks, ∀ x ∈ kept,
      itemLine x.2 = false) ∧
        ∀ a b : List (List UInt8), a.flatten = stream → b.flatten = stream →
          preview (fun b => b) a = preview (fun b => b) b) ↔
      Alike stream := by
  constructor
  · rintro ⟨hleak, hsame⟩
    by_cases hall : ∀ line ∈ lines lineFeed (complete lineFeed stream), itemBlock line = true
    · exact Or.inl hall
    · refine Or.inr (fun line hline => ⟨item_of_block hsame hall hline, fun hitem part hpart => ?_⟩)
      exact item_of_part (hleak [tagged stream] List.flatten_singleton) hline hitem hpart
  · intro h
    refine ⟨fun chunks hchunks kept hkept x hx => no_leak h hchunks hkept hx, fun a b ha hb => ?_⟩
    have hwhole {chunks : List (List UInt8)} (hchunks : chunks.flatten = stream) :
        preview (fun b => b) chunks = preview (fun b => b) [stream] := by
      rw [← hchunks]
      apply preview_alike
      rw [hchunks, List.map_id']
      exact h
    rw [hwhole ha, hwhole hb]

/-- A file name with a carriage return: what follows it is kept. -/
theorem name_with_return :
    let stream := bytesOf "A /srv/a\rsecret\n".toList
    itemLine stream = true ∧ preview (fun b => b) [stream] = "secret\n".toList ∧
      ∃ kept ∈ keptFrom Prod.fst [] [tagged stream], ∃ x ∈ kept, itemLine x.2 = true := by
  decide

end BorgManager.DatabasePreview
