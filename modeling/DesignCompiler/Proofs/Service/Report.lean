import DesignCompiler.Proofs.Json.Ending
import DesignCompiler.Proofs.Json.Extent
import DesignCompiler.Proofs.Layout.Written
import DesignCompiler.Proofs.Render.Fallback
import DesignCompiler.Service.Tool

/-!
# `DesignCompiler.Proofs.Service.Report`: which replies can be read back

An extraction is told in JSON so that its trees can be sent back to have code generated from them.
That goes well as long as the JSON fits into `Report.characterLimit`: there is a reply, it is read
as what it tells, and the trees in it make a request for code (`Report.read_replyOf`). A longer
reply is cut, and nobody can read it: `Report.cutMark` ends with a round bracket, and no JSON does
(`Report.tower_unreadable` is a design that this happens to).

The limit on the length is also what keeps the trees within the levels that are written and that a
request may have: a deep tree is a long one (`Report.lt_length_of_levels`).
-/

set_option autoImplicit false

namespace DesignCompiler.Report

open Json Outcome Schema

/-! ### Replies that are cut -/

/-- A reply within the limit is left as it is. -/
theorem cut_of_le {reply : Text} (h : reply.length ≤ characterLimit) : cut reply = reply :=
  if_neg (Nat.not_lt.mpr h)

/-- A longer reply is cut at the limit, and the mark says so. Where it is cut does not depend on
what stands there. -/
theorem cut_of_lt {reply : Text} (h : characterLimit < reply.length) :
    cut reply = reply.take characterLimit ++ cutMark := if_pos h

/-- A reply that has been cut is no JSON. JSON has one of a few characters at its end, and the round
bracket of the mark is none of them. -/
theorem read_cut_ne {reply : Text} (h : characterLimit < reply.length) (levels : Nat)
    (value : Json) : read levels (cut reply) ≠ .ok value := by
  intro hread
  refine getLast?_ne_of_read hread ?_
  rw [cut_of_lt h, List.getLast?_append]
  rfl

/-! ### Extractions -/

section

variable (t : Extraction) (trees : List Json) (fileSize : Option Nat) (time : Int)

/-- What the fields of a reply say of an extraction: everything that the extraction has. The fields
are found by their names, so it does not matter which others are there. -/
structure Tells (fields : Json.Fields) : Prop where
  ir : field? fields "ir".toList = some (.list (Node.toJsons t.roots))
  nodeCount : field? fields "nodeCount".toList = some (.int t.count)
  truncated : field? fields "truncated".toList = some (.bool t.isCut)
  warnings : field? fields "warnings".toList = some (.list (t.messages.map .text))
  pageId : field? fields "pageId".toList = some (Request.pageValue t.page)

/-- All that is told of an extraction besides its fields is numbers: the size of the file where it
is known, and the time that has passed. -/
def extraFields : Json.Fields :=
  (fileSize.map fun size => ("fileSize".toList, Json.int size)).toList
    ++ [("processingTime".toList, .int time)]

/-- The JSON of an extraction is an object with the fields of the extraction and the numbers behind
them. -/
theorem extractionJson_eq : extractionJson t trees fileSize time
    = .object (extractionFields t trees ++ extraFields fileSize time) := by
  rw [extractionJson, extraFields, List.append_assoc]

/-- The fields that are written say what the extraction is, whatever is told behind them. -/
theorem tells_extractionFields (extra : Json.Fields) :
    Tells t (extractionFields t (Node.toJsons t.roots) ++ extra) := ⟨rfl, rfl, rfl, rfl, rfl⟩

/-- No name comes twice among the fields, with or without the size. Reading JSON keeps the last of
several fields with one name, so this has to be known. -/
theorem names_nodup :
    ((extractionFields t trees ++ extraFields fileSize time).map Prod.fst).Nodup := by
  have hnames : (["ir".toList, "nodeCount".toList, "truncated".toList, "warnings".toList,
      "pageId".toList, "fileSize".toList, "processingTime".toList] : List Text).Nodup := by
    decide
  cases fileSize with
  | some size => exact hnames
  | none => exact hnames.sublist (by simp [extractionFields, extraFields])

/-- The JSON of an extraction is read if its trees are. The numbers outside the trees are read as
long as none of them has too many digits; the messages are texts, and any text is read. -/
theorem readable_extractionJson (htrees : ReadableAll trees)
    (hdigits : (extractionJson t trees fileSize time).WithinDigits) :
    (extractionJson t trees fileSize time).Readable := by
  rw [extractionJson_eq] at hdigits ⊢
  have hint : ∀ {name : Text} {n : Int},
      (name, .int n) ∈ extractionFields t trees ++ extraFields fileSize time →
        (Json.int n).Readable :=
    fun hmem => hdigits.field hmem _ (List.mem_singleton_self _)
  refine ⟨names_nodup t trees fileSize time, readableFields_iff.mpr ?_⟩
  rintro ⟨name, value⟩ hmem
  -- The fields of the extraction are looked at one by one, and the others are numbers.
  rcases List.mem_append.mp hmem with htold | hextra
  · simp only [extractionFields, List.mem_cons, List.not_mem_nil, or_false, Prod.mk.injEq]
      at htold
    rcases htold with ⟨-, rfl⟩ | ⟨-, rfl⟩ | ⟨-, rfl⟩ | ⟨-, rfl⟩ | ⟨-, rfl⟩
    · exact htrees
    · exact hint hmem
    · trivial
    · refine readableAll_iff.mpr fun item hitem => ?_
      obtain ⟨message, -, rfl⟩ := List.mem_map.mp hitem
      trivial
    · cases t.page <;> trivial
  · obtain ⟨n, rfl⟩ : ∃ n, value = .int n := by
      rcases List.mem_append.mp hextra with hsize | htime
      · obtain ⟨size, -, heq⟩ := Option.map_eq_some_iff.mp (Option.mem_toList.mp hsize)
        exact ⟨size, (Prod.mk.inj heq).2.symm⟩
      · exact ⟨time, (Prod.mk.inj (List.mem_singleton.mp htime)).2⟩
    exact hint hmem

/-- The trees of an extraction are two levels inside its JSON, in a list that is in an object. -/
theorem depthAll_le_extractionJson :
    depthAll trees + 2 ≤ (extractionJson t trees fileSize time).depth := by
  rw [extractionJson_eq, depth]
  have hlist : (Json.list trees).depth
      ≤ depthFields (extractionFields t trees ++ extraFields fileSize time) :=
    depth_le_depthFields (List.mem_append_left _ List.mem_cons_self)
  rw [depth] at hlist
  omega

/-- A tree of eighty levels is told in more characters than the limit allows. Each level is two
levels of JSON, and the blanks in front of the closing brackets alone go beyond the limit. -/
theorem lt_length_of_levels (h : 80 ≤ Node.levelsAll t.roots) :
    characterLimit < (extractionJson t (Node.toJsons t.roots) fileSize time).indented.length := by
  have hall := Node.levelsAll_le_depthAll t.roots
  have htold := depthAll_le_extractionJson t (Node.toJsons t.roots) fileSize time
  have hdepth : 159 < (extractionJson t (Node.toJsons t.roots) fileSize time).depth := by omega
  have hlength := length_of_lt_depth _ 0 [] hdepth
  show 25000 < (writeBefore .indented 0 _ []).length
  omega

end

/-- Trees that were written make a request for their code, for every platform, and the request holds
these very trees. Only trees with too many levels are refused. -/
theorem create_of_trees {nodes : List Node} (h : Node.levelsAll nodes ≤ Request.nodeLevels)
    (platform : Platform) (extract : Bool) (format : ReplyFormat) :
    GenerateRequest.form.create (.object
      [(Request.nodesName, .list (Node.toJsons nodes)),
       (Request.platformName, .text platform.token),
       (Request.extractName, .bool extract), (Request.formatName, .text format.token)])
      = .ok ⟨nodes, platform, extract, format⟩ := by
  -- The form asks for its fields by name, each in the whole object.
  generalize hfields : [(Request.nodesName, Json.list (Node.toJsons nodes)),
    (Request.platformName, .text platform.token), (Request.extractName, .bool extract),
    (Request.formatName, .text format.token)] = fields
  have hnodes : Request.optional fields Request.nodesName [] Request.checkNodes
      = .accepted nodes := by
    subst hfields
    exact under_eq_accepted.mpr (Node.checkAll_toJsons h)
  have hplatform : Request.needed fields Request.platformName Request.checkPlatform
      = .accepted platform := by
    subst hfields
    cases platform <;> rfl
  have hextract : Request.optional fields Request.extractName false checkBool
      = .accepted extract := by
    subst hfields
    rfl
  have hformat : Request.optional fields Request.formatName .markdown Request.checkFormat
      = .accepted format := by
    subst hfields
    cases format <;> rfl
  show Checked.orFault _ (GenerateRequest.mk <$> _ <*> _ <*> _ <*> _) = _
  rw [hnodes, hplatform, hextract, hformat]
  rfl

/-- The reply that tells an extraction, unless its trees have too many levels to be written. Both
tools that tell a layout tree end with it. -/
def replyOf (t : Extraction) (title : Text) (fileSize : Option Nat) (time : Int)
    (format : ReplyFormat) : Except Fault Text := do
  let trees ← Node.dumpAll Node.levelLimit t.roots
  return ofExtraction t trees title fileSize time format

/-- This is how the layout tree of a fetched file is told, however long it took: the file is
translated, and the reply is `replyOf` of the extraction, under the title of the file and with its
size. -/
theorem extractReply_eq (time : Int) (r : ExtractRequest) (file : Json) :
    Tool.extractReply time r file
      = Extraction.ofFile file (Tool.wantedPage r.page) Extraction.usualLimit >>= fun t =>
          replyOf t (Tool.titleOf file r.fileKey) (some file.compact.length) time r.format := rfl

/-- This is how the layout tree of a given file is told, however long it took. It differs from
`extractReply_eq` in the title of a file without one, and no size is told. -/
theorem parseReply_eq (time : Int) (r : ParseRequest) : Tool.parseReply time r
    = Extraction.ofFile (.object r.file) (Tool.wantedPage r.page) Extraction.usualLimit
        >>= fun t => replyOf t (Tool.titleOf (.object r.file) "Document".toList) none time
          r.format := rfl

/-- An extraction told in JSON is read back whole, and its trees make a request for their code, if
the JSON fits into the limit. If it does not fit, no reply is JSON.

The levels of the trees are no condition: trees with too many of them do not fit. A number of
thousands of digits is the only thing in a reply that could not be read. -/
theorem read_replyOf (t : Extraction) (title : Text) (fileSize : Option Nat) (time : Int)
    (hdigits : (extractionJson t (Node.toJsons t.roots) fileSize time).WithinDigits) :
    ((extractionJson t (Node.toJsons t.roots) fileSize time).indented.length ≤ characterLimit →
      ∃ reply fields, replyOf t title fileSize time .json = .ok reply
        ∧ read Reply.levelLimit reply = .ok (.object fields)
        ∧ Tells t fields
        ∧ ∀ (platform : Platform) (extract : Bool) (format : ReplyFormat),
          GenerateRequest.form.create (.object
            [(Request.nodesName, fieldOrNull fields "ir".toList),
             (Request.platformName, .text platform.token),
             (Request.extractName, .bool extract), (Request.formatName, .text format.token)])
            = .ok ⟨t.roots, platform, extract, format⟩)
    ∧ (characterLimit < (extractionJson t (Node.toJsons t.roots) fileSize time).indented.length →
      ∀ reply, replyOf t title fileSize time .json = .ok reply →
        ∀ levels value, read levels reply ≠ .ok value) := by
  constructor
  · intro hlimit
    -- Eighty levels would not fit, and more than three times as many can be written and read.
    have hlevels : Node.levelsAll t.roots < 80 := Nat.not_le.mp fun hmany =>
      Nat.not_lt.mpr hlimit (lt_length_of_levels t fileSize time hmany)
    have hdumped : Node.dumpAll Node.levelLimit t.roots = .ok (Node.toJsons t.roots) := by
      rw [Node.dumpAll_eq, if_pos (Nat.le_trans (Nat.le_of_lt hlevels) (by decide))]
    have hreadable : (extractionJson t (Node.toJsons t.roots) fileSize time).Readable := by
      have hlist : (Json.list (Node.toJsons t.roots)).WithinDigits := by
        rw [extractionJson_eq] at hdigits
        exact hdigits.field (List.mem_append_left _ List.mem_cons_self)
      exact readable_extractionJson t _ fileSize time (Node.readableAll_toJsons t.roots hlist)
        hdigits
    -- The JSON is about twice as deep as the trees; its length bounds that too.
    have hdepth : (extractionJson t (Node.toJsons t.roots) fileSize time).depth ≤ 158 :=
      depth_le_of_length (Nat.lt_of_le_of_lt hlimit (by decide))
    refine ⟨(extractionJson t (Node.toJsons t.roots) fileSize time).indented,
      extractionFields t (Node.toJsons t.roots) ++ extraFields fileSize time, ?_, ?_,
      tells_extractionFields t _, create_of_trees (Nat.le_trans (Nat.le_of_lt hlevels) (by decide))⟩
    · rw [replyOf, hdumped, ok_bind, ofExtraction, cut_of_le hlimit]
      rfl
    · rw [← extractionJson_eq]
      exact read_write .indented hreadable (Nat.le_trans hdepth (by decide))
  · intro hlimit reply hreply
    obtain ⟨trees, hdumped, hcut⟩ := bind_eq_ok.mp hreply
    have htrees : trees = Node.toJsons t.roots := by
      rw [Node.dumpAll_eq] at hdumped
      split at hdumped
      · exact (Except.ok.inj hdumped).symm
      · cases hdumped
    rw [pure_eq, Except.ok.injEq, ofExtraction, htrees] at hcut
    rw [← hcut]
    exact read_cut_ne hlimit

/-- The extraction of a page with a text in it, cut off behind the text. The text has quotes, a line
feed and a character outside the basic plane, and one of the numbers is a negative zero. -/
def greeting : Extraction :=
  let text : Layer := { Layer.plain "TEXT".toList with
    text := some "\"Olá\"\n🎨".toList, fontWeight := some (.whole 700) }
  let frame : Layer := { Layer.plain "FRAME".toList with
    name := "Card".toList, layout := some .vertical,
    padding := some ⟨.zero false, .zero true, .zero false, .zero false⟩ }
  ⟨some (.mk frame [.mk text []]), 2, true, [.cut 2], some "0:1".toList⟩

/-- This extraction is read back. Its numbers are short, and its JSON is far below the limit. -/
theorem read_greeting :
    (extractionJson greeting (Node.toJsons greeting.roots) (some 512) 7).WithinDigits
    ∧ ∃ reply fields, replyOf greeting [] (some 512) 7 .json = .ok reply
      ∧ read Reply.levelLimit reply = .ok (.object fields) ∧ Tells greeting fields := by
  have hdigits :
      (extractionJson greeting (Node.toJsons greeting.roots) (some 512) 7).WithinDigits := by
    intro n hn
    -- These are the whole numbers of the reply: the weight, the count, the size and the time.
    have hwholes : n ∈ ([700, 2, 512, 7] : List Int) := hn
    have hsmall : n.natAbs < 10 ^ 3 := by
      simp only [List.mem_cons, List.not_mem_nil, or_false] at hwholes
      omega
    exact Nat.lt_of_lt_of_le hsmall (Nat.pow_le_pow_right (by decide) (by decide))
  have hlimit :
      (extractionJson greeting (Node.toJsons greeting.roots) (some 512) 7).indented.length
        ≤ characterLimit := by decide +kernel
  obtain ⟨reply, fields, hreply, hread, htells, -⟩ :=
    (read_replyOf greeting [] (some 512) 7 hdigits).1 hlimit
  exact ⟨hdigits, reply, fields, hreply, hread, htells⟩

/-- Frames inside one another, the given number of them around the innermost. -/
def tower : Nat → Node
  | 0 => .mk (Layer.plain "FRAME".toList) []
  | n + 1 => .mk (Layer.plain "FRAME".toList) [tower n]

/-- A tower has a level for each frame. It is shown for every height, so that the levels of a high
one need not be counted. -/
theorem levels_tower (n : Nat) : (tower n).levels = n + 1 := by
  induction n with
  | zero => rfl
  | succ n ih =>
    rw [tower, Node.levels, Node.levelsAll, Node.levelsAll, ih]
    show 1 + max 0 (max (n + 1) 0) = n + 1 + 1
    omega

/-- Eighty frames inside one another are told in a reply, and nobody can read it. The trees can be
written, and it is only the limit that spoils them. -/
theorem tower_unreadable :
    ∃ reply, replyOf ⟨some (tower 79), 80, false, [], none⟩ [] none 0 .json = .ok reply
      ∧ ∀ levels value, read levels reply ≠ .ok value := by
  have hlevels : Node.levelsAll [tower 79] = 80 := by
    rw [Node.levelsAll, Node.levelsAll, levels_tower]
    rfl
  have hdumped : Node.dumpAll Node.levelLimit [tower 79] = .ok (Node.toJsons [tower 79]) := by
    rw [Node.dumpAll_eq, if_pos (by rw [hlevels]; decide)]
  have hlong : characterLimit < (extractionJson ⟨some (tower 79), 80, false, [], none⟩
      (Node.toJsons [tower 79]) none 0).indented.length :=
    lt_length_of_levels _ none 0 (Nat.le_of_eq hlevels.symm)
  refine ⟨_, ?_, read_cut_ne hlong⟩
  show (Node.dumpAll Node.levelLimit [tower 79] >>= _) = _
  rw [hdumped]
  rfl

end DesignCompiler.Report
