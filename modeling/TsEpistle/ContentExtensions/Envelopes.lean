import TsEpistle.ContentExtensions.Embeds

/-! Envelopes of content extensions of any kind (`shared/content-extensions.ts`). -/

namespace TsEpistle.ContentExtensions
open Library Json List

inductive ContentExtensionKey
  | qr
  | gallery
  | linksGrid
  | index
  | tabs
  | spoiler
  | infobox
  | pdf
  | media
  | youtube
  | diagram
  | kroki
  | plantuml
  | map
  deriving DecidableEq

/-- The keys of `BUILTIN_CONTENT_EXTENSIONS`. -/
def contentExtensionKeys : Words ContentExtensionKey where
  all := [.qr, .gallery, .linksGrid, .index, .tabs, .spoiler, .infobox, .pdf, .media, .youtube, .diagram, .kroki,
    .plantuml, .map]
  text
    | .qr => js "qr"
    | .gallery => js "gallery"
    | .linksGrid => js "links-grid"
    | .index => js "index"
    | .tabs => js "tabs"
    | .spoiler => js "spoiler"
    | .infobox => js "infobox"
    | .pdf => js "pdf"
    | .media => js "media"
    | .youtube => js "youtube"
    | .diagram => js "diagram"
    | .kroki => js "kroki"
    | .plantuml => js "plantuml"
    | .map => js "map"
  find a := by cases a <;> decide

variable {ν : Type} (platform : Platform) (arithmetic : Arithmetic ν)

def Props : ContentExtensionKey → Type
  | .qr => QrProps arithmetic
  | .gallery => GalleryProps platform arithmetic
  | .linksGrid => LinksGridProps platform
  | .index => IndexProps arithmetic
  | .tabs => TabsProps arithmetic
  | .spoiler => SpoilerProps
  | .infobox => InfoboxProps platform
  | .pdf => PdfProps platform arithmetic
  | .media => MediaProps platform
  | .youtube => YoutubeProps arithmetic
  | .diagram => DiagramProps
  | .kroki => KrokiProps
  | .plantuml => PlantUmlProps
  | .map => MapProps arithmetic

/-- How the properties of each kind are read, and how `canonicalProps` writes them. -/
def propsOf : (key : ContentExtensionKey) → Codec arithmetic (Props platform arithmetic key)
  | .qr => parseQr arithmetic
  | .gallery => parseGallery platform arithmetic
  | .linksGrid => parseLinksGrid platform arithmetic
  | .index => parseIndex arithmetic
  | .tabs => parseTabs arithmetic
  | .spoiler => parseSpoiler arithmetic
  | .infobox => parseInfobox platform arithmetic
  | .pdf => parsePdf platform arithmetic
  | .media => parseMedia platform arithmetic
  | .youtube => parseYoutube arithmetic
  | .diagram => parseDiagram arithmetic
  | .kroki => parseKroki arithmetic
  | .plantuml => parsePlantUml arithmetic
  | .map => parseMap arithmetic

/-- An envelope that was accepted. Its version is 1. -/
structure ContentExtensionEnvelope where
  key : ContentExtensionKey
  props : Props platform arithmetic key

def keysMessage : JsString :=
  js "Content extension key must be one of: "
    ++ (js ", ").intercalate (contentExtensionKeys.all.map fun key =>
      js "\"" ++ contentExtensionKeys.text key ++ js "\"") ++ js "."

/-- The number 1. -/
def isOne : Value ν → Bool
  | .number number => number.integer arithmetic = some 1
  | _ => false

def parseContentExtensionEnvelope (input : Value ν) :
    Except JsString (ContentExtensionEnvelope platform arithmetic) := do
  let envelope ← requireJsonObject input (js "Content extension")
  rejectUnknownProperties envelope [js "key", js "version", js "props"] (js "Content extension")
  if !isOne arithmetic (property envelope (js "version")) then .error (js "Content extensions require version 1.")
  else
    let key ← (word arithmetic contentExtensionKeys keysMessage).read (property envelope (js "key"))
    let props ← (propsOf platform arithmetic key).read (property envelope (js "props"))
    return ⟨key, props⟩

variable {platform arithmetic}

/-- The object that an envelope is, which `serializeContentExtensionFence` writes. -/
def ContentExtensionEnvelope.toValue (envelope : ContentExtensionEnvelope platform arithmetic) : Value ν :=
  record [(js "key", .string (contentExtensionKeys.text envelope.key)),
    (js "version", .number (.finite (arithmetic.whole 1))),
    (js "props", (propsOf platform arithmetic envelope.key).write envelope.props)]

/-- The envelope with 0 for -0. -/
def ContentExtensionEnvelope.unsigned (envelope : ContentExtensionEnvelope platform arithmetic) :
    ContentExtensionEnvelope platform arithmetic :=
  ⟨envelope.key, (propsOf platform arithmetic envelope.key).unsigned envelope.props⟩

theorem envelope_keys (key version props : Value ν) :
    ([(js "key", key), (js "version", version), (js "props", props)].map (·.1)).Nodup := by
  change [js "key", js "version", js "props"].Nodup
  decide

theorem parse_toValue (envelope : ContentExtensionEnvelope platform arithmetic) :
    parseContentExtensionEnvelope platform arithmetic envelope.toValue = .ok envelope := by
  have hkeys := envelope_keys (.string (contentExtensionKeys.text envelope.key))
    (.number (.finite (arithmetic.whole 1))) ((propsOf platform arithmetic envelope.key).write envelope.props)
  have hversion := property_filter hkeys (mem_cons_of_mem _ mem_cons_self)
  have hkey := property_filter hkeys mem_cons_self
  have hprops := property_filter hkeys (mem_cons_of_mem _ (mem_cons_of_mem _ mem_cons_self))
  have hone : isOne arithmetic (.number (.finite (arithmetic.whole 1))) = true := by
    simp [isOne, Number.integer, arithmetic.integer_whole 1 (by decide)]
  unfold parseContentExtensionEnvelope ContentExtensionEnvelope.toValue record requireJsonObject
  simp only [bind, Except.bind]
  rw [rejectUnknownProperties_ok]
  · dsimp only at hversion hkey hprops ⊢
    rw [hversion, hone, hkey, hprops]
    rw [if_neg (by decide), ← show (word arithmetic contentExtensionKeys keysMessage).write envelope.key
      = .string (contentExtensionKeys.text envelope.key) from rfl, Codec.read_write]
    dsimp only
    rw [Codec.read_write]
    rfl
  · intro entry hentry
    have hmem := mem_map_of_mem (f := (·.1)) (mem_of_mem_filter hentry)
    exact hmem

theorem plain_toValue (envelope : ContentExtensionEnvelope platform arithmetic) : Plain envelope.toValue := by
  refine plain_record (envelope_keys _ _ _) fun field hfield hdefined => ?_
  simp only [mem_cons, not_mem_nil, or_false] at hfield
  rcases hfield with rfl | rfl | rfl
  · exact .string _
  · exact .finite _
  · exact (propsOf platform arithmetic envelope.key).plain envelope.props hdefined

theorem toValue_unsigned (envelope : ContentExtensionEnvelope platform arithmetic) :
    envelope.toValue.unsigned arithmetic = envelope.unsigned.toValue := by
  unfold ContentExtensionEnvelope.toValue
  rw [record_unsigned]
  simp only [map_cons, map_nil, onValue, Codec.write_unsigned]
  rfl

end TsEpistle.ContentExtensions
