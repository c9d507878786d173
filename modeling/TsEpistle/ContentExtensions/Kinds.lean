import TsEpistle.ContentExtensions.Objects
import TsEpistle.LiveNotes.Title

/-! The fourteen kinds of content extensions (`shared/content-extensions.ts`). What a kind reads is what
`canonicalProps` writes of it, in that order. -/

namespace TsEpistle.ContentExtensions
open Library Json

/-! ## Paths -/

structure ParsedUrl where
  (protocol hostname username password : JsString)

/-- Functions of the language that only tell what is let through. -/
structure Platform where
  decodeURIComponent : JsString → Option JsString
  parseUrl : JsString → Option ParsedUrl
  toLowerCase : JsString → JsString

def trim (text : JsString) : JsString := LiveNotes.stripped LiveNotes.whitespace text

def includes (text part : JsString) : Bool := text.tails.any fun rest => startsWith rest part

def hasControlCharacter (value : JsString) : Bool := value.any fun code => code ≤ 31 || code = 127

/-- A backslash, a question mark or a number sign. -/
def hasReserved (value : JsString) : Bool := value.any fun unit => unit = 92 || unit = 63 || unit = 35

def isSafeContentExtensionAssetPath (platform : Platform) (value : JsString) : Bool :=
  if value ≠ trim value || !startsWith value (js "/") || startsWith value (js "//") || 512 < value.length then false
  else if hasReserved value || hasControlCharacter value then false
  else
    match platform.decodeURIComponent value with
    | none => false
    | some decoded =>
      if hasReserved decoded then false
      else if (decoded.splitOn 47).any fun segment => segment = js "." || segment = js ".." then false
      else !startsWith decoded (js "/_") || startsWith decoded (js "/_assets/")

variable {ν : Type} (platform : Platform) (arithmetic : Arithmetic ν)

abbrev AssetPath := { path : JsString // isSafeContentExtensionAssetPath platform path = true }

def assetMessage (path : JsString) : JsString := path ++ js " must be a safe same-origin asset path."

def requireAssetPath (path : JsString) : Codec arithmetic (AssetPath platform) :=
  checkedString arithmetic (isSafeContentExtensionAssetPath platform) fun _ => assetMessage path

def optionalAssetPath (path : JsString) : Codec arithmetic (Option (AssetPath platform)) :=
  (requireAssetPath platform arithmetic path).optional (checkedString_defined arithmetic _ _)

/-- Where the properties are. -/
def atProps (name : String) : JsString := js "Content extension props." ++ js name

/-- An item of an array. -/
def atIndex (path : JsString) (index : Nat) : JsString := path ++ js "[" ++ decimal index ++ js "]"

def caption (path : JsString) : Fields arithmetic (Option (Bounded 0 300)) :=
  field (js "caption") (optionalBoundedString arithmetic path 300)

/-! ## QR codes -/

inductive ErrorCorrection
  | l
  | m
  | q
  | h
  deriving DecidableEq

def errorCorrections : Words ErrorCorrection where
  all := [.l, .m, .q, .h]
  text
    | .l => js "L"
    | .m => js "M"
    | .q => js "Q"
    | .h => js "H"
  find a := by cases a <;> decide

structure QrProps where
  value : Bounded 1 2048
  label : Option (Bounded 0 200)
  size : Whole arithmetic 128 1024
  errorCorrection : ErrorCorrection

def qrFields : Fields arithmetic (QrProps arithmetic) :=
  ((field (js "value") (boundedString arithmetic (atProps "value") 1 2048)).and <|
    (field (js "label") (optionalBoundedString arithmetic (atProps "label") 200)).and <|
    (field (js "size") (boundedInteger arithmetic (atProps "size") 128 1024 256)).and <|
    field (js "errorCorrection") (oneOf arithmetic errorCorrections .m
      (js "Content extension props.errorCorrection must be one of \"L\", \"M\", \"Q\", or \"H\"."))).named
    (fun (value, label, size, errorCorrection) => ⟨value, label, size, errorCorrection⟩)
    (fun props => (props.value, props.label, props.size, props.errorCorrection)) (fun _ => rfl) fun _ => rfl

def parseQr : Codec arithmetic (QrProps arithmetic) :=
  object (js "Content extension props") [js "value", js "label", js "size", js "errorCorrection"] (qrFields arithmetic)
    rfl (by decide)

/-! ## Galleries -/

inductive GalleryFit
  | cover
  | contain
  deriving DecidableEq

def galleryFits : Words GalleryFit where
  all := [.cover, .contain]
  text
    | .cover => js "cover"
    | .contain => js "contain"
  find a := by cases a <;> decide

inductive AspectRatio
  | square
  | natural
  deriving DecidableEq

def aspectRatios : Words AspectRatio where
  all := [.square, .natural]
  text
    | .square => js "square"
    | .natural => js "natural"
  find a := by cases a <;> decide

structure GalleryImage where
  src : AssetPath platform
  alt : Bounded 1 200
  caption : Option (Bounded 0 300)

def galleryImageFields (path : JsString) : Fields arithmetic (GalleryImage platform) :=
  ((field (js "src") (requireAssetPath platform arithmetic (path ++ js ".src"))).and <|
    (field (js "alt") (boundedString arithmetic (path ++ js ".alt") 1 200)).and <|
    caption arithmetic (path ++ js ".caption")).named
    (fun (src, alt, caption) => ⟨src, alt, caption⟩) (fun image => (image.src, image.alt, image.caption))
    (fun _ => rfl) fun _ => rfl

def galleryImage (index : Nat) : Codec arithmetic (GalleryImage platform) :=
  object (atIndex (atProps "images") index) [js "src", js "alt", js "caption"]
    (galleryImageFields platform arithmetic (atIndex (atProps "images") index)) rfl (by decide)

structure GalleryProps where
  images : Sized (GalleryImage platform) 1 50
  columns : Whole arithmetic 1 4
  fit : GalleryFit
  aspectRatio : AspectRatio

def galleryFields : Fields arithmetic (GalleryProps platform arithmetic) :=
  ((field (js "images") (arrayOf (galleryImage platform arithmetic) (fun _ _ => rfl) 1 50
      (js "Content extension props.images must contain between 1 and 50 images."))).and <|
    (field (js "columns") (boundedInteger arithmetic (atProps "columns") 1 4 3)).and <|
    (field (js "fit") (oneOf arithmetic galleryFits .cover
      (js "Content extension props.fit must be \"cover\" or \"contain\"."))).and <|
    field (js "aspectRatio") (oneOf arithmetic aspectRatios .square
      (js "Content extension props.aspectRatio must be \"square\" or \"natural\"."))).named
    (fun (images, columns, fit, aspectRatio) => ⟨images, columns, fit, aspectRatio⟩)
    (fun props => (props.images, props.columns, props.fit, props.aspectRatio)) (fun _ => rfl) fun _ => rfl

def parseGallery : Codec arithmetic (GalleryProps platform arithmetic) :=
  object (js "Content extension props") [js "images", js "columns", js "fit", js "aspectRatio"]
    (galleryFields platform arithmetic) rfl (by decide)

/-! ## Grids of links -/

/-- A path of this site, also when it is decoded. -/
def isLocalUrl (url : JsString) : Bool :=
  isSafeContentExtensionAssetPath platform url
    && (platform.decodeURIComponent url).any fun decoded =>
      !hasControlCharacter decoded && !startsWith decoded (js "//")

def isForeignUrl (url : JsString) : Bool :=
  (platform.parseUrl url).any fun parsed =>
    [js "http:", js "https:", js "mailto:", js "tel:"].contains parsed.protocol
      && ((parsed.protocol ≠ js "http:" && parsed.protocol ≠ js "https:") || parsed.hostname ≠ [])
      && parsed.username = [] && parsed.password = []

def isPlainUrl (url : JsString) : Bool := url = trim url && !hasControlCharacter url && !url.contains 92

def requireLinksGridUrl (path : JsString) :
    Codec arithmetic { url : JsString // (ofLength 1 2048 url && isPlainUrl url
      && (isLocalUrl platform url || isForeignUrl platform url)) = true } :=
  checkedString arithmetic _ fun read =>
    match read with
    | none => boundedMessage path 1 2048
    | some url =>
      if !ofLength 1 2048 url then boundedMessage path 1 2048
      else if !isPlainUrl url then path ++ js " must be a safe link URL."
      else path ++ js " must be a same-origin path or an http, https, mailto, or tel URL without credentials."

/-- A string of a length between the bounds with more than white space. -/
def namedString (path : JsString) (minimum maximum : Nat) (message : JsString) :
    Codec arithmetic { text : JsString // (ofLength minimum maximum text && trim text ≠ []) = true } :=
  checkedString arithmetic _ fun read =>
    if read.any (ofLength minimum maximum) then message else boundedMessage path minimum maximum

def imageSuffixes : List JsString := [js ".png", js ".jpg", js ".jpeg", js ".gif", js ".webp", js ".avif"]

def asciiLower (text : JsString) : JsString :=
  text.map fun unit => if 65 ≤ unit && unit ≤ 90 then unit + 32 else unit

def isLocalImage (image : JsString) : Bool :=
  (platform.decodeURIComponent image).any fun decoded =>
    !hasControlCharacter decoded && !startsWith decoded (js "//")
      && imageSuffixes.any fun suffix => endsWith (asciiLower decoded) suffix

def localImage (path : JsString) :
    Codec arithmetic { image : JsString // (isSafeContentExtensionAssetPath platform image
      && isLocalImage platform image) = true } :=
  checkedString arithmetic _ fun read =>
    if read.any (isSafeContentExtensionAssetPath platform) then
      path ++ js " must be a local PNG, JPEG, GIF, WebP, or AVIF image."
    else assetMessage path

theorem find_attach {table : List JsString} (name : { name : JsString // name ∈ table }) :
    (table.attach.find? fun other => other.1 = name.1) = some name := by
  cases hfind : table.attach.find? fun other => decide (other.1 = name.1) with
  | none => exact absurd (List.find?_eq_none.mp hfind name (List.mem_attach table name)) (by simp)
  | some other => exact congrArg some (Subtype.ext (by simpa using List.find?_some hfind))

/-- The words of a table. -/
def tableWords (table : List JsString) : Words { name : JsString // name ∈ table } where
  all := table.attach
  text name := name.1
  find := find_attach

/-- The names of `LINKS_GRID_ICONS`. -/
def LINKS_GRID_ICONS : List JsString := [js "page", js "globe", js "tags", js "external-link"]

structure LinksGridCard where
  title : { text : JsString // (ofLength 1 200 text && trim text ≠ []) = true }
  url : { url : JsString // (ofLength 1 2048 url && isPlainUrl url
    && (isLocalUrl platform url || isForeignUrl platform url)) = true }
  description : Option (Bounded 0 1000)
  image : Option { image : JsString // (isSafeContentExtensionAssetPath platform image
    && isLocalImage platform image) = true }
  icon : Option { name : JsString // name ∈ LINKS_GRID_ICONS }
  tags : Option (Sized { text : JsString // (ofLength 1 40 text && trim text ≠ []) = true } 0 8)

def linksGridTag (path : JsString) (index : Nat) :
    Codec arithmetic { text : JsString // (ofLength 1 40 text && trim text ≠ []) = true } :=
  namedString arithmetic (atIndex (path ++ js ".tags") index) 1 40
    (atIndex (path ++ js ".tags") index ++ js " must not be blank.")

def linksGridCardFields (path : JsString) : Fields arithmetic (LinksGridCard platform) :=
  ((field (js "title") (namedString arithmetic (path ++ js ".title") 1 200
      (path ++ js ".title must name the link."))).and <|
    (field (js "url") (requireLinksGridUrl platform arithmetic (path ++ js ".url"))).and <|
    (field (js "description") (optionalBoundedString arithmetic (path ++ js ".description") 1000)).and <|
    (field (js "image") ((localImage platform arithmetic (path ++ js ".image")).optional fun _ => rfl)).and <|
    (field (js "icon") ((word arithmetic (tableWords LINKS_GRID_ICONS)
      (path ++ js ".icon must be an approved links-grid icon.")).optional fun _ => rfl)).and <|
    field (js "tags") ((arrayOf (linksGridTag arithmetic path) (fun _ _ => rfl) 0 8
      (path ++ js ".tags must contain at most 8 tags.")).optional fun _ => rfl)).named
    (fun (title, url, description, image, icon, tags) => ⟨title, url, description, image, icon, tags⟩)
    (fun card => (card.title, card.url, card.description, card.image, card.icon, card.tags)) (fun _ => rfl) fun _ => rfl

def linksGridCard (index : Nat) : Codec arithmetic (LinksGridCard platform) :=
  object (atIndex (atProps "cards") index)
    [js "title", js "url", js "description", js "image", js "icon", js "tags"]
    (linksGridCardFields platform arithmetic (atIndex (atProps "cards") index)) rfl (by decide)

abbrev LinksGridProps := Sized (LinksGridCard platform) 1 50

def linksGridFields : Fields arithmetic (LinksGridProps platform) :=
  field (js "cards") (arrayOf (linksGridCard platform arithmetic) (fun _ _ => rfl) 1 50
    (js "Content extension props.cards must contain between 1 and 50 cards."))

def parseLinksGrid : Codec arithmetic (LinksGridProps platform) :=
  object (js "Content extension props") [js "cards"] (linksGridFields platform arithmetic) rfl (by decide)

/-! ## Indexes -/

def validIndexPath (value : JsString) : Bool :=
  if 512 < value.length || startsWith value (js "/") || endsWith value (js "/") || value.contains 92
      || includes value (js "//") then false
  else if value.contains 63 || value.contains 35 || hasControlCharacter value then false
  else (value.splitOn 47).all fun segment => segment ≠ js "." && segment ≠ js ".."

def isLetterOrDigit (unit : UInt16) : Bool :=
  (65 ≤ unit && unit ≤ 90) || (97 ≤ unit && unit ≤ 122) || (48 ≤ unit && unit ≤ 57)

def validLocale (value : JsString) : Bool :=
  ofLength 2 20 value && value.all fun unit => isLetterOrDigit unit || unit = 45

inductive IndexOrder
  | path
  | title
  | updated
  deriving DecidableEq

def indexOrders : Words IndexOrder where
  all := [.path, .title, .updated]
  text
    | .path => js "path"
    | .title => js "title"
    | .updated => js "updated"
  find a := by cases a <;> decide

structure IndexProps where
  path : { path : JsString // validIndexPath path = true }
  locale : { locale : JsString // validLocale locale = true }
  depth : Whole arithmetic 0 5
  columns : Whole arithmetic 1 3
  (showIcons showTags showPageAccent : Bool)
  order : IndexOrder
  limit : Whole arithmetic 1 200
  emptyLabel : Option (Bounded 0 200)

def indexFields : Fields arithmetic (IndexProps arithmetic) :=
  ((field (js "path") (checkedString arithmetic validIndexPath fun _ =>
      js "Content extension props.path must be a normalized page path without leading or trailing slashes.")).and <|
    (field (js "locale") (checkedString arithmetic validLocale fun _ =>
      js "Content extension props.locale must be a valid locale code.")).and <|
    (field (js "depth") (boundedInteger arithmetic (atProps "depth") 0 5 0)).and <|
    (field (js "columns") (boundedInteger arithmetic (atProps "columns") 1 3 2)).and <|
    (field (js "showIcons") (strictBoolean arithmetic (atProps "showIcons") false)).and <|
    (field (js "showTags") (strictBoolean arithmetic (atProps "showTags") false)).and <|
    (field (js "showPageAccent") (strictBoolean arithmetic (atProps "showPageAccent") false)).and <|
    (field (js "order") (oneOf arithmetic indexOrders .path
      (js "Content extension props.order must be \"path\", \"title\", or \"updated\"."))).and <|
    (field (js "limit") (boundedInteger arithmetic (atProps "limit") 1 200 50)).and <|
    field (js "emptyLabel") (optionalBoundedString arithmetic (atProps "emptyLabel") 200)).named
    (fun (path, locale, depth, columns, showIcons, showTags, showPageAccent, order, limit, emptyLabel) =>
      ⟨path, locale, depth, columns, showIcons, showTags, showPageAccent, order, limit, emptyLabel⟩)
    (fun props => (props.path, props.locale, props.depth, props.columns, props.showIcons, props.showTags,
      props.showPageAccent, props.order, props.limit, props.emptyLabel)) (fun _ => rfl) fun _ => rfl

def parseIndex : Codec arithmetic (IndexProps arithmetic) :=
  object (js "Content extension props")
    [js "path", js "locale", js "depth", js "columns", js "showIcons", js "showTags", js "showPageAccent", js "order",
      js "limit", js "emptyLabel"] (indexFields arithmetic) rfl (by decide)

end TsEpistle.ContentExtensions
