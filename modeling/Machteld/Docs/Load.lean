import Machteld.Docs.Catalog
import Machteld.Docs.Raw

namespace Machteld

/-- `dict get` of a field. -/
def DocsRuntime.get (rt : DocsRuntime) (value : Chars) (field : String) : Except TclError Chars :=
  rawGet rt.tcl value (chars field)

/-- The dict in a field. -/
def DocsRuntime.entries (rt : DocsRuntime) (value : Chars) (field : String) :
    Except TclError (List (Chars × Chars)) :=
  (rt.get value field).bind (rawDict rt.tcl)

/-- `[catch {DocsUniqueDict ...}]` -/
def DocsRuntime.notUnique (rt : DocsRuntime) (value : Chars) (place : Bytes) : Except TclError Bool :=
  caught (docsUniqueDict rt.tcl value place)

def catalogKeys : List String :=
  ["aliases", "auxiliary", "corpus_sha256", "documents", "fragments", "generator", "inventory", "machteld_version",
    "products", "schema",
    "search"]

def recordKeys : List String :=
  ["bytes", "content_sha256", "formats", "id", "names", "path", "product", "raw_path", "sections", "source_file",
    "source_sha256",
    "summary", "title", "type", "version"]

def formatKeys : List String := ["bytes", "characters", "path", "sections", "sha256"]

/-- A text of `DocsFail corrupt` about something. -/
def corruptFor (message : String) (place : Bytes) : TclError := corrupt (ascii message ++ place)

def docsLoadPresent (rt : DocsRuntime) (catalog : Chars) (key : String) : Except TclError Unit :=
  refuse (.ok (!rawExists rt.tcl catalog [chars key]))
    (corrupt (ascii "docs: catalog has no " ++ (ascii key ++ ascii " field")))

def docsLoadDict (rt : DocsRuntime) (catalog : Chars) (key : String) : Except TclError Unit := do
  let value ← rt.get catalog key
  refuse (rt.notUnique value (ascii "catalog " ++ ascii key))
    (corrupt (ascii "docs: catalog " ++ (ascii key ++ ascii " field is not a dict")))

def docsLoadBound (rt : DocsRuntime) (catalog : Chars) (bound : String × Nat) : Except TclError Unit := do
  let entries ← rt.entries catalog bound.1
  refuse (.ok (decide (bound.2 < entries.length)))
    (corrupt (ascii "docs: catalog " ++ (ascii bound.1 ++ ascii " inventory is too large")))

def catalogDicts : List String := ["products", "documents", "aliases", "fragments", "inventory", "search"]

def catalogBounds : List (String × Nat) :=
  [("documents", 10000), ("aliases", 100000), ("fragments", 100000), ("inventory", 100000)]

/-- The checks of `DocsLoad` on the fields of the catalog. -/
def docsLoadHead (rt : DocsRuntime) (catalog : Chars) : Except TclError Unit := do
  let _ ← docsUniqueDict rt.tcl catalog (ascii "catalog")
  refuse (caught (rawDict rt.tcl catalog)) (corrupt (ascii "docs: catalog is not an inert Tcl dict"))
  refuse (keysDiffer rt.tcl catalog catalogKeys) (corrupt (ascii "docs: catalog fields do not match schema 1"))
  eachOf (docsLoadPresent rt catalog)
    ["schema", "generator", "machteld_version", "corpus_sha256", "products", "documents", "aliases", "fragments",
      "inventory", "search",
      "auxiliary"]
  let schema ← rt.get catalog "schema"
  refuse (.ok (schema != chars "1")) (corrupt (ascii "docs: unsupported catalog schema"))
  let generator ← rt.get catalog "generator"
  refuse (.ok (generator == [] || decide (256 < generator.length)))
    (corrupt (ascii "docs: invalid catalog generator identity"))
  let version ← rt.get catalog "machteld_version"
  refuse (.ok (version != rt.version)) (corrupt (ascii "docs: catalog version disagrees with the runtime"))
  let corpus ← rt.get catalog "corpus_sha256"
  docsValidateHash corpus (ascii "catalog")
  eachOf (docsLoadDict rt catalog) catalogDicts
  eachOf (docsLoadBound rt catalog) catalogBounds
  let auxiliary ← rt.get catalog "auxiliary"
  refuse (anyOf [caught (rt.tcl.words auxiliary), (rt.tcl.words auxiliary).bind fun words =>
    .ok (decide (100000 < words.length))])
    (corrupt (ascii "docs: catalog auxiliary field is not a list"))

/-- The version that a product of the catalog describes. -/
def DocsRuntime.productVersion (rt : DocsRuntime) (product : Chars) : Chars :=
  if product = chars "machteld" then rt.version else if product =
    chars "tcl" then rt.patchlevel else rt.tkPatchlevel

/-- The loop of `DocsLoad` over the products. -/
def docsLoadProduct (rt : DocsRuntime) (entry : Chars × Chars) : Except TclError Unit := do
  let product := tclText entry.1
  let facts := entry.2
  refuse (anyOf [rt.notUnique facts (ascii "product " ++ product),
    keysDiffer rt.tcl facts ["documents", "manual_pages", "version"]])
    (corruptFor "docs: invalid product facts for " product)
  let version ← rt.get facts "version"
  refuse (.ok (version == [] || decide (64 < version.length)))
    (corruptFor "docs: invalid product version for " product)
  let documents ← rt.get facts "documents"
  docsNonnegative documents (product ++ ascii " document count")
  let pages ← rt.get facts "manual_pages"
  docsNonnegative pages (product ++ ascii " manual-page count")
  refuse (.ok (decide (charsValue documents < charsValue pages)))
    (corruptFor "docs: manual-page count exceeds document count for " product)
  refuse (.ok (version != rt.productVersion entry.1))
    (corrupt (ascii "docs: " ++ (product ++ ascii " reference version disagrees with the runtime")))

def docsLoadProducts (rt : DocsRuntime) (catalog : Chars) : Except TclError Unit := do
  let products ← rt.get catalog "products"
  refuse (keysDiffer rt.tcl products ["machteld", "tcl", "tk"])
    (corrupt (ascii "docs: catalog products must be exactly machteld, tcl, and tk"))
  let entries ← rawDict rt.tcl products
  eachOf (docsLoadProduct rt) entries

/-- The loop of `DocsLoad` over the inventory, with the bytes so far. -/
def docsLoadInventoryEntry (rt : DocsRuntime) (inventoryBytes : Nat) (entry : Chars × Chars) :
    Except TclError Nat := do
  let place := ascii "inventory " ++ tclText entry.1
  let facts := entry.2
  refuse (anyOf [.ok (!docsSafeRelative entry.1), rt.notUnique facts place,
    keysDiffer rt.tcl facts ["bytes", "sha256"]])
    (corrupt (ascii "docs: invalid inventory entry"))
  let sha256 ← rt.get facts "sha256"
  docsValidateHash sha256 place
  let bytes ← rt.get facts "bytes"
  docsNonnegative bytes place
  refuse (.ok (decide (2147483647 < inventoryBytes + charsValue bytes)))
    (corrupt (ascii "docs: embedded reference inventory is too large"))
  return inventoryBytes + charsValue bytes

def docsLoadInventory (rt : DocsRuntime) (catalog : Chars) : Except TclError Unit := do
  let entries ← rt.entries catalog "inventory"
  let _ ← foldOf (docsLoadInventoryEntry rt) 0 entries

/-- The loop of `DocsLoad` over the sections of a representation, with the
start of the one before. -/
def docsLoadRange (rt : DocsRuntime) (id : Bytes) (record facts : Chars) (priorStart : Nat)
    (entry : Chars × Chars) : Except TclError Nat := do
  let place := id ++ (ascii "#" ++ tclText entry.1)
  let range := entry.2
  let sections ← rt.get record "sections"
  refuse (anyOf [.ok (!rawExists rt.tcl sections [entry.1]), rt.notUnique range (place ++ ascii " range"),
      keysDiffer rt.tcl range ["end", "start"]])
    (corruptFor "docs: invalid section range for " place)
  let start ← rt.get range "start"
  let stop ← rt.get range "end"
  docsNonnegative start (place ++ ascii " start")
  docsNonnegative stop (place ++ ascii " end")
  let characters ← rt.get facts "characters"
  refuse (.ok (decide (charsValue stop < charsValue start) || decide (charsValue start < priorStart) ||
      decide (charsValue characters < charsValue stop)))
    (corruptFor "docs: invalid section range ordering for " id)
  return charsValue start

def docsLoadComplete (rt : DocsRuntime) (id format : Bytes) (facts : Chars) (field : String) :
    Except TclError Unit :=
  refuse (.ok (!rawExists rt.tcl facts [chars field]))
    (corrupt (ascii "docs: incomplete " ++ (format ++ (ascii " representation for " ++ id))))

/-- The loop of `DocsLoad` over the formats of a document, with what is
represented so far. -/
def docsLoadFormat (rt : DocsRuntime) (catalog : Chars) (id : Bytes) (record : Chars) (represented : List Chars)
    (entry : Chars × Chars) :
    Except TclError (List Chars) := do
  let format := tclText entry.1
  let place := id ++ (ascii " " ++ format)
  let facts := entry.2
  refuse (anyOf [.ok (!(["markdown", "html", "source"].map chars).contains entry.1), rt.notUnique facts place,
      keysDiffer rt.tcl facts formatKeys])
    (corruptFor "docs: invalid representation for " id)
  eachOf (docsLoadComplete rt id format facts) ["path", "sha256", "bytes", "characters", "sections"]
  let relative ← rt.get facts "path"
  refuse (.ok (!docsSafeRelative relative))
    (corrupt (ascii "docs: unsafe " ++ (format ++ (ascii " path for " ++ id))))
  let sha256 ← rt.get facts "sha256"
  docsValidateHash sha256 place
  let bytes ← rt.get facts "bytes"
  docsNonnegative bytes place
  let characters ← rt.get facts "characters"
  docsNonnegative characters (place ++ ascii " characters")
  refuse (.ok (decide (67108864 < charsValue bytes) || decide (67108864 < charsValue characters)))
    (corrupt (ascii "docs: oversized " ++ (format ++ (ascii " representation for " ++ id))))
  let inventory ← rt.get catalog "inventory"
  refuse (anyOf [.ok (!rawExists rt.tcl inventory [relative]),
      (rawGetIn rt.tcl inventory [relative, chars "sha256"]).bind fun declared => .ok (declared != sha256),
      (rawGetIn rt.tcl inventory [relative, chars "bytes"]).bind fun declared =>
        .ok (charsValue declared != charsValue bytes)])
    (corrupt (ascii "docs: " ++ (id ++ (ascii " " ++ (format ++ ascii " disagrees with the inventory")))))
  let ranges ← rt.get facts "sections"
  refuse (rt.notUnique ranges (place ++ ascii " ranges")) (corruptFor "docs: invalid section ranges for " id)
  let entries ← rawDict rt.tcl ranges
  let _ ← foldOf (docsLoadRange rt id record facts) 0 entries
  return represented ++ [relative]

def docsDotParts : List Chars := [chars ".", chars "..", []]

/-- The checks of `DocsLoad` on a document's id, product and type. -/
def docsLoadIdentity (rt : DocsRuntime) (catalog id record : Chars) : Except TclError Unit := do
  refuse (anyOf [.ok (id == []), .ok (id != rt.tables.toLower id), .ok (!canonicalId id),
      rt.notUnique record (ascii "document " ++ tclText id)])
    (corrupt (ascii "docs: invalid document id or record"))
  refuse (keysDiffer rt.tcl record recordKeys)
    (corrupt (ascii "docs: " ++ (tclText id ++ ascii " fields do not match schema 1")))
  let own ← rt.get record "id"
  refuse (.ok (own != id)) (corruptFor "docs: document id mismatch for " (tclText id))
  let product ← rt.get record "product"
  let type ← rt.get record "type"
  let idParts := id.splitOn 0x2F
  let stableSpecial := id == chars "machteld/agent" && type == chars "guide" || id == chars "machteld/index" &&
    type == chars "index" ||
    id == product ++ chars "/license" && type == chars "license"
  refuse (anyOf [(rt.get catalog "products").bind fun products => .ok (!rawExists rt.tcl products [product]),
      .ok (stableSpecial && idParts.length != 2 || !stableSpecial && idParts.length != 3),
      .ok (idParts.head?.getD [] != product),
      .ok (!stableSpecial && idParts.tail.head?.getD [] != type),
      .ok (type == []), .ok (type != rt.tables.toLower type)])
    (corruptFor "docs: unknown product for " (tclText id))
  refuse (.ok (idParts.any fun part => docsDotParts.contains part))
    (corruptFor "docs: noncanonical document id " (tclText id))
  let version ← rt.get record "version"
  refuse ((rawGetIn rt.tcl catalog [chars "products", product, chars "version"]).bind fun declared =>
    .ok (version != declared))
    (corruptFor "docs: product version disagrees for " (tclText id))

def docsLoadScalar (rt : DocsRuntime) (id : Bytes) (record : Chars) (scalar : String) : Except TclError Unit := do
  let value ← rt.get record scalar
  refuse (.ok (decide (262144 < value.length)))
    (corrupt (ascii "docs: oversized " ++ (ascii scalar ++ (ascii " field for " ++ id))))

def docsLoadName (id : Bytes) (name : Chars) : Except TclError Unit :=
  refuse (.ok (name == [] || decide (65536 < name.length))) (corruptFor "docs: invalid document name for " id)

def docsLoadHeading (rt : DocsRuntime) (id : Bytes) (entry : Chars × Chars) : Except TclError Unit :=
  refuse (.ok (entry.1 == [] || entry.1 != rt.tables.toLower entry.1 || !canonicalSlug rt.tables entry.1 ||
      occurs (chars "--") entry.1 || entry.2 == [] || decide (65536 < entry.2.length)))
    (corruptFor "docs: invalid section metadata for " id)

/-- The checks of `DocsLoad` on the texts of a document. -/
def docsLoadTexts (rt : DocsRuntime) (id : Bytes) (record : Chars) : Except TclError Unit := do
  eachOf (docsLoadScalar rt id record)
    ["product", "version", "type", "title", "summary", "path", "raw_path", "source_file", "content_sha256",
      "source_sha256", "bytes"]
  let names ← rt.get record "names"
  refuse (anyOf [caught (rt.tcl.words names), (rt.tcl.words names).bind fun words => .ok words.isEmpty])
    (corruptFor "docs: invalid names for " id)
  let sections ← rt.get record "sections"
  let formats ← rt.get record "formats"
  refuse (anyOf [rt.notUnique sections (id ++ ascii " sections"), rt.notUnique formats (id ++ ascii " formats")])
    (corruptFor "docs: invalid sections or formats for " id)
  let title ← rt.get record "title"
  let summary ← rt.get record "summary"
  let words ← rt.tcl.words names
  let headings ← rawDict rt.tcl sections
  let representations ← rawDict rt.tcl formats
  let source ← rt.get record "source_file"
  refuse (.ok (decide (65536 < title.length) || decide (262144 < summary.length) || decide (1024 < words.length) ||
      decide (4096 < headings.length) || decide (3 < representations.length) || decide (32767 < source.length)))
    (corruptFor "docs: oversized document metadata for " id)
  eachOf (docsLoadName id) words
  eachOf (docsLoadHeading rt id) headings

/-- The checks of `DocsLoad` on the fields that a document shares with its
representations. -/
def docsLoadCompatibility (rt : DocsRuntime) (id : Bytes) (record : Chars) : Except TclError Unit := do
  let content ← rt.get record "content_sha256"
  docsValidateHash content (id ++ ascii " content compatibility")
  let bytes ← rt.get record "bytes"
  docsNonnegative bytes (id ++ ascii " byte compatibility")
  let markdown ← rawGetIn rt.tcl record [chars "formats", chars "markdown"]
  refuse (anyOf [do return (← rt.get record "path") != (← rt.get markdown "path"),
      do return content != (← rt.get markdown "sha256"),
      do return bytes != (← rt.get markdown "bytes")])
    (corrupt (ascii "docs: " ++ (id ++ ascii " compatibility fields disagree with Markdown")))
  let formats ← rt.get record "formats"
  let raw ← rt.get record "raw_path"
  let sourceHash ← rt.get record "source_sha256"
  if rawExists rt.tcl formats [chars "source"] then do
    let source ← rawGetIn rt.tcl record [chars "formats", chars "source"]
    docsValidateHash sourceHash (id ++ ascii " source compatibility")
    refuse (anyOf [do return raw != (← rt.get source "path"), do return sourceHash != (← rt.get source "sha256")])
      (corrupt (ascii "docs: " ++ (id ++ ascii " compatibility fields disagree with source")))
  else
    refuse (.ok (raw != [] || sourceHash != []))
      (corrupt (ascii "docs: " ++ (id ++ ascii " has source compatibility facts without source")))

/-- What `DocsLoad` carries from one document to the next. -/
structure LoadState where
  ids : List Chars
  productCounts : List (Chars × Nat)
  manualCounts : List (Chars × Nat)
  represented : List Chars

def noCounts : List (Chars × Nat) := [(chars "machteld", 0), (chars "tcl", 0), (chars "tk", 0)]

def LoadState.start : LoadState := ⟨[], noCounts, noCounts, []⟩

/-- `dict incr` -/
def dictIncr (key : Chars) (counts : List (Chars × Nat)) : List (Chars × Nat) :=
  dictPut key ((dictGet key counts).getD 0 + 1) counts

/-- The loop of `DocsLoad` over the documents. -/
def docsLoadDocument (rt : DocsRuntime) (catalog : Chars) (s : LoadState) (entry : Chars × Chars) :
    Except TclError LoadState := do
  let id := tclText entry.1
  let record := entry.2
  docsLoadIdentity rt catalog entry.1 record
  docsLoadTexts rt id record
  let formats ← rt.entries record "formats"
  let represented ← foldOf (docsLoadFormat rt catalog id record) s.represented formats
  refuse (.ok (formats.isEmpty || (dictGet (chars "markdown") formats).isNone))
    (corrupt (ascii "docs: " ++ (id ++ ascii " carries no Markdown representation")))
  docsLoadCompatibility rt id record
  let product ← rt.get record "product"
  let type ← rt.get record "type"
  return ⟨s.ids ++ [entry.1], dictIncr product s.productCounts,
    if type = chars "license" then s.manualCounts else dictIncr product s.manualCounts, represented⟩

def docsLoadDocuments (rt : DocsRuntime) (catalog : Chars) : Except TclError LoadState := do
  let entries ← rt.entries catalog "documents"
  foldOf (docsLoadDocument rt catalog) LoadState.start entries

def countOf (counts : List (Chars × Nat)) (product : Chars) : Except TclError Nat :=
  match dictGet product counts with
  | some n => .ok n
  | none => .error (dictKeyUnknown product)

/-- The second loop of `DocsLoad` over the products. -/
def docsLoadCount (rt : DocsRuntime) (s : LoadState) (entry : Chars × Chars) : Except TclError Unit :=
  refuse (anyOf [do return charsValue (← rt.get entry.2 "documents") != (← countOf s.productCounts entry.1),
      do return charsValue (← rt.get entry.2 "manual_pages") != (← countOf s.manualCounts entry.1)])
    (corruptFor "docs: declared counts disagree for " (tclText entry.1))

def docsLoadCounts (rt : DocsRuntime) (catalog : Chars) (s : LoadState) : Except TclError Unit := do
  let products ← rt.entries catalog "products"
  eachOf (docsLoadCount rt s) products

/-- The loop of `DocsLoad` over the auxiliary files, with those so far. -/
def docsLoadAuxiliaryEntry (rt : DocsRuntime) (inventory : Chars) (represented auxiliary : List Chars)
    (relative : Chars) :
    Except TclError (List Chars) := do
  refuse (.ok (!docsSafeRelative relative || !rawExists rt.tcl inventory [relative] ||
    auxiliary.contains relative ||
      represented.contains relative))
    (corrupt (ascii "docs: invalid auxiliary inventory entry"))
  return auxiliary ++ [relative]

def docsLoadClassified (represented auxiliary : List Chars) (entry : Chars × Chars) : Except TclError Unit :=
  refuse (.ok (!represented.contains entry.1 && !auxiliary.contains entry.1))
    (corruptFor "docs: unclassified inventory entry " (tclText entry.1))

def docsLoadAuxiliary (rt : DocsRuntime) (catalog : Chars) (s : LoadState) : Except TclError Unit := do
  let auxiliary ← rt.get catalog "auxiliary"
  let words ← rt.tcl.words auxiliary
  refuse (.ok (rt.tcl.text (lsort words) != auxiliary))
    (corrupt (ascii "docs: auxiliary inventory is not ordinally sorted"))
  let inventory ← rt.get catalog "inventory"
  let classified ← foldOf (docsLoadAuxiliaryEntry rt inventory s.represented) [] words
  let entries ← rawDict rt.tcl inventory
  eachOf (docsLoadClassified s.represented classified) entries

def docsLoadCandidate (ids : List Chars) (id : Chars) : Except TclError Unit :=
  refuse (.ok (!ids.contains id)) (corruptFor "docs: alias points to unknown document " (tclText id))

def docsLoadAlias (rt : DocsRuntime) (ids : List Chars) (entry : Chars × Chars) : Except TclError Unit := do
  let alias' := entry.1
  refuse (anyOf [.ok (alias' == []), .ok (alias' != docsNormalizeAlias rt.tables alias'),
    .ok (decide (4096 < alias'.length)),
      caught (rt.tcl.words entry.2), (rt.tcl.words entry.2).bind fun words => .ok words.isEmpty])
    (corrupt (ascii "docs: invalid alias entry"))
  let candidates ← rt.tcl.words entry.2
  refuse (.ok ((lsort candidates).eraseDups != lsort candidates)) (corrupt (ascii "docs: duplicate alias target"))
  eachOf (docsLoadCandidate ids) candidates

def docsLoadFragment (rt : DocsRuntime) (catalog : Chars) (ids : List Chars) (entry : Chars × Chars) :
    Except TclError Unit := do
  let fragment := entry.1
  let target := entry.2
  refuse (anyOf [.ok (decide (32767 < fragment.length)), .ok (fragment != rt.tables.toLower fragment),
      rt.notUnique target (ascii "fragment " ++ tclText fragment), keysDiffer rt.tcl target ["id", "section"]])
    (corrupt (ascii "docs: invalid fragment entry"))
  let id ← rt.get target "id"
  let sectionName ← rt.get target "section"
  refuse (anyOf [.ok (fragment != id ++ 0x23 :: sectionName), .ok (ids.contains fragment), .ok (!ids.contains id),
      (rawGetIn rt.tcl catalog [chars "documents", id, chars "sections"]).bind fun sections =>
        .ok (!rawExists rt.tcl sections [sectionName])])
    (corrupt (ascii "docs: fragment points outside the catalog"))

/-- The checks of `DocsLoad` on the text of the catalog. -/
def docsLoadText (rt : DocsRuntime) (catalog : Chars) : Except TclError Unit := do
  docsLoadHead rt catalog
  docsLoadProducts rt catalog
  docsLoadInventory rt catalog
  let s ← docsLoadDocuments rt catalog
  docsLoadCounts rt catalog s
  docsLoadAuxiliary rt catalog s
  let aliases ← rt.entries catalog "aliases"
  eachOf (docsLoadAlias rt s.ids) aliases
  let fragments ← rt.entries catalog "fragments"
  eachOf (docsLoadFragment rt catalog s.ids) fragments

/-- A file of the pack: its size, its decoded text or the message why it
cannot be read, and `hash file sha256`. -/
structure PackFile where
  size : Option Nat
  text : Except Bytes Chars
  hash : Option Chars

/-- What `DocsNativeChildren` lists of a directory; a name may fail with an
error of the system. -/
inductive PackNode
  | directory (children : List (Chars × PackNode))
  | file (size : Option Nat) (hash : Option Chars)
  | special
  | unknown (posix message : Bytes)

/-- Where the pack is found. -/
inductive PackMount
  | accessorMissing
  | rootMissing
  | noReference
  | mounted
deriving DecidableEq

/-- The embedded pack: its root, its files by their paths, and its tree. -/
structure DocsPack where
  mount : PackMount
  root : Chars
  file : Chars → Option PackFile
  tree : List (Chars × PackNode)

/-- A control file of the pack. -/
def DocsPack.control (pack : DocsPack) (name : String) : Option PackFile :=
  pack.file (fileJoin [pack.root, chars name])

/-- `DocsRoot`: the root is `pack.root`. -/
def docsRoot (pack : DocsPack) : Except TclError Unit :=
  match pack.mount with
  | .accessorMissing =>
    .error (docsFail "unsupported" (ascii "docs: this host has no trusted embedded reference root"))
  | .rootMissing =>
    .error (docsFail "unsupported" (ascii "docs: the trusted embedded reference root is unavailable"))
  | .noReference =>
    .error (docsFail "unsupported" (ascii "docs: this executable carries no embedded reference pack"))
  | .mounted => .ok ()

/-- `DocsReadUtf8` -/
def docsReadUtf8 (file : PackFile) (label : Bytes) : Except TclError Chars :=
  match file.text with
  | .ok text => .ok text
  | .error message => .error (corrupt (ascii "docs: cannot read embedded " ++ (label ++ (ascii ": " ++ message))))

/-- `DocsLoad`: the text of the catalog. -/
def docsLoad (rt : DocsRuntime) (pack : DocsPack) : Except TclError Chars := do
  docsRoot pack
  match pack.control "catalog.dict" with
  | none => .error (corrupt (ascii "docs: embedded catalog.dict is missing"))
  | some file => do
    refuse (.ok (file.size.all fun size => decide (size = 0) || decide (67108864 < size)))
      (corrupt (ascii "docs: embedded catalog is too large"))
    let text ← docsReadUtf8 file (ascii "catalog")
    docsLoadText rt (rt.tables.trim text)
    return rt.tables.trim text

end Machteld
