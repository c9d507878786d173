import TsEpistle.ContentExtensions.Kinds

/-! Kinds of content extensions that hold panels, players, diagrams and maps
(`shared/content-extensions.ts`). -/

namespace TsEpistle.ContentExtensions
open Library Json List

variable {ν : Type} (platform : Platform) (arithmetic : Arithmetic ν)

/-! ## Tabs -/

structure TabsPanel where
  label : Bounded 1 100
  content : Bounded 1 20000
  headingLevel : Option (Whole arithmetic 1 6)

/-- The level of the heading is checked first. -/
def tabsPanelFields (path : JsString) : Fields arithmetic (TabsPanel arithmetic) :=
  (((field (js "label") (boundedString arithmetic (path ++ js ".label") 1 100)).and <|
    field (js "content") (boundedString arithmetic (path ++ js ".content") 1 20000)).readLast <|
    field (js "headingLevel") ((boundedInteger arithmetic (path ++ js ".headingLevel") 1 6 1).optional
      fun _ => rfl)).named
    (fun ((label, content), headingLevel) => ⟨label, content, headingLevel⟩)
    (fun panel => ((panel.label, panel.content), panel.headingLevel)) (fun _ => rfl) fun _ => rfl

def tabsPanel (index : Nat) : Codec arithmetic (TabsPanel arithmetic) :=
  object (atIndex (atProps "tabs") index) [js "label", js "content", js "headingLevel"]
    (tabsPanelFields arithmetic (atIndex (atProps "tabs") index)) rfl (by decide)

def tabsPanels : Codec arithmetic (Sized (TabsPanel arithmetic) 2 12) :=
  arrayOf (tabsPanel arithmetic) (fun _ _ => rfl) 2 12
    (js "Content extension props.tabs must contain between 2 and 12 panels.")

/-- The active panel is one of the panels. -/
structure TabsProps where
  tabs : Sized (TabsPanel arithmetic) 2 12
  active : Whole arithmetic 0 ((tabs.1.length : Int) - 1)

def activeTab (count : Nat) : Codec arithmetic (Whole arithmetic 0 ((count : Int) - 1)) :=
  boundedInteger arithmetic (atProps "active") 0 ((count : Int) - 1) 0

def TabsProps.unsigned (props : TabsProps arithmetic) : TabsProps arithmetic where
  tabs := (tabsPanels arithmetic).unsigned props.tabs
  active := ⟨props.active.1.unsigned arithmetic, by
    have hlength : ((tabsPanels arithmetic).unsigned props.tabs).1.length = props.tabs.1.length :=
      length_unsignedResults _ _ _
    rw [hlength]
    exact inRange_unsigned arithmetic props.active.2⟩

def tabsFields : Fields arithmetic (TabsProps arithmetic) where
  keys := [js "tabs", js "active"]
  read get := do
    let tabs ← (tabsPanels arithmetic).read (get (js "tabs"))
    let active ← (activeTab arithmetic tabs.1.length).read (get (js "active"))
    return ⟨tabs, active⟩
  write props :=
    [(js "tabs", (tabsPanels arithmetic).write props.tabs),
      (js "active", (activeTab arithmetic props.tabs.1.length).write props.active)]
  unsigned := TabsProps.unsigned arithmetic
  keys_write _ := rfl
  read_write props get h := by
    obtain ⟨htabs, hactive, -⟩ := forall_mem_cons.mp h |>.imp_right forall_mem_cons.mp
    rw [htabs, (tabsPanels arithmetic).read_write]
    change (activeTab arithmetic props.tabs.1.length).read (get (js "active")) >>= _ = _
    rw [hactive, (activeTab arithmetic _).read_write]
    rfl
  write_unsigned props := by
    rw [map_cons, map_singleton, onValue, (tabsPanels arithmetic).write_unsigned]
    rfl
  plain props := by
    refine forall_mem_cons.mpr ⟨(tabsPanels arithmetic).plain props.tabs, fun field hfield => ?_⟩
    rw [mem_singleton.mp hfield]
    exact (activeTab arithmetic _).plain props.active

def parseTabs : Codec arithmetic (TabsProps arithmetic) :=
  object (js "Content extension props") [js "tabs", js "active"] (tabsFields arithmetic) rfl (by decide)

/-! ## Spoilers -/

structure SpoilerProps where
  (label hint : Bounded 0 200)
  content : Bounded 1 20000

def spoilerFields : Fields arithmetic SpoilerProps :=
  ((field (js "label") (stringOr arithmetic (atProps "label") 200 ⟨js "Spoiler", by decide⟩)).and <|
    (field (js "hint") (stringOr arithmetic (atProps "hint") 200 ⟨js "Show hidden content", by decide⟩)).and <|
    field (js "content") (boundedString arithmetic (atProps "content") 1 20000)).named
    (fun (label, hint, content) => ⟨label, hint, content⟩) (fun props => (props.label, props.hint, props.content))
    (fun _ => rfl) fun _ => rfl

def parseSpoiler : Codec arithmetic SpoilerProps :=
  object (js "Content extension props") [js "label", js "hint", js "content"] (spoilerFields arithmetic) rfl
    (by decide)

/-! ## Infoboxes -/

/-- An image with the text that describes it. -/
structure DescribedImage where
  image : AssetPath platform
  imageAlt : { text : Bounded 0 200 // text.1 ≠ [] }

/-- An image is described, and nothing is where there is none. -/
def describe (head : Bounded 1 200 × Option (AssetPath platform) × Option (Bounded 0 200)) :
    Except JsString (Bounded 1 200 × Option (DescribedImage platform)) :=
  match head with
  | (title, none, none) => .ok (title, none)
  | (_, none, some _) => .error (js "Content extension props.imageAlt requires props.image.")
  | (_, some _, none) => .error (js "Content extension props.imageAlt must describe the configured image.")
  | (title, some image, some imageAlt) =>
    if h : imageAlt.1 ≠ [] then .ok (title, some ⟨image, imageAlt, h⟩)
    else .error (js "Content extension props.imageAlt must describe the configured image.")

inductive InfoboxValue
  | boolean (value : Bool)
  | text (value : Bounded 0 1000)

def infoboxValue (message : JsString) : Codec arithmetic InfoboxValue where
  read
    | .boolean value => .ok (.boolean value)
    | .string text => if h : ofLength 0 1000 text = true then .ok (.text ⟨text, h⟩) else .error message
    | _ => .error message
  write
    | .boolean value => .boolean value
    | .text value => .string value.1
  unsigned := id
  read_write value := by
    cases value with
    | boolean value => rfl
    | text value => exact dif_pos value.2
  write_unsigned value := by cases value <;> rfl
  plain value _ := by
    cases value with
    | boolean value => exact .boolean value
    | text value => exact .string value.1

structure InfoboxFact where
  label : Bounded 1 100
  value : InfoboxValue

def infoboxFactFields (path : JsString) : Fields arithmetic InfoboxFact :=
  ((field (js "label") (boundedString arithmetic (path ++ js ".label") 1 100)).and <|
    field (js "value") (infoboxValue arithmetic
      (path ++ js ".value must be a boolean or a string no longer than 1000 characters."))).named
    (fun (label, value) => ⟨label, value⟩) (fun fact => (fact.label, fact.value)) (fun _ => rfl) fun _ => rfl

def infoboxFact (index : Nat) : Codec arithmetic InfoboxFact :=
  object (atIndex (atProps "facts") index) [js "label", js "value"]
    (infoboxFactFields arithmetic (atIndex (atProps "facts") index)) rfl (by decide)

structure InfoboxProps where
  title : Bounded 1 200
  image : Option (DescribedImage platform)
  caption : Option (Bounded 0 300)
  facts : Sized InfoboxFact 1 50

def infoboxHead : Fields arithmetic (Bounded 1 200 × Option (DescribedImage platform)) :=
  ((field (js "title") (boundedString arithmetic (atProps "title") 1 200)).and <|
    (field (js "image") (optionalAssetPath platform arithmetic (atProps "image"))).and <|
    field (js "imageAlt") (optionalBoundedString arithmetic (atProps "imageAlt") 200)).via (describe platform)
    (fun head => (head.1, head.2.map DescribedImage.image, head.2.map fun described => described.imageAlt.1)) id
    (by
      rintro ⟨title, _ | described⟩
      · rfl
      · exact dif_pos described.imageAlt.2)
    (by rintro ⟨title, _ | described⟩ <;> rfl)

def infoboxFields : Fields arithmetic (InfoboxProps platform) :=
  ((infoboxHead platform arithmetic).and <|
    (caption arithmetic (atProps "caption")).and <|
    field (js "facts") (arrayOf (infoboxFact arithmetic) (fun _ _ => rfl) 1 50
      (js "Content extension props.facts must contain between 1 and 50 facts."))).named
    (fun ((title, image), caption, facts) => ⟨title, image, caption, facts⟩)
    (fun props => ((props.title, props.image), props.caption, props.facts)) (fun _ => rfl) fun _ => rfl

def parseInfobox : Codec arithmetic (InfoboxProps platform) :=
  object (js "Content extension props") [js "title", js "image", js "imageAlt", js "caption", js "facts"]
    (infoboxFields platform arithmetic) rfl (by decide)

/-! ## PDF documents -/

def isPdfPath (src : JsString) : Bool := endsWith (platform.toLowerCase src) (js ".pdf")

structure PdfProps where
  src : { src : JsString // (isSafeContentExtensionAssetPath platform src && isPdfPath platform src) = true }
  title : Bounded 0 200
  page : Whole arithmetic 1 100000
  height : Whole arithmetic 320 1600

def pdfFields : Fields arithmetic (PdfProps platform arithmetic) :=
  ((field (js "src") (checkedString arithmetic _ fun read =>
      if read.any (isSafeContentExtensionAssetPath platform) then
        js "Content extension props.src must identify a PDF asset."
      else assetMessage (atProps "src"))).and <|
    (field (js "title") (stringOr arithmetic (atProps "title") 200 ⟨js "PDF document", by decide⟩)).and <|
    (field (js "page") (boundedInteger arithmetic (atProps "page") 1 100000 1)).and <|
    field (js "height") (boundedInteger arithmetic (atProps "height") 320 1600 720)).named
    (fun (src, title, page, height) => ⟨src, title, page, height⟩)
    (fun props => (props.src, props.title, props.page, props.height)) (fun _ => rfl) fun _ => rfl

def parsePdf : Codec arithmetic (PdfProps platform arithmetic) :=
  object (js "Content extension props") [js "src", js "title", js "page", js "height"] (pdfFields platform arithmetic)
    rfl (by decide)

/-! ## Media -/

inductive MediaKind
  | audio
  | video
  deriving DecidableEq

def mediaKinds : Words MediaKind where
  all := [.audio, .video]
  text
    | .audio => js "audio"
    | .video => js "video"
  find a := by cases a <;> decide

def MediaKind.defaultTitle : MediaKind → Bounded 0 200
  | audio => ⟨js "Audio player", by decide⟩
  | video => ⟨js "Video player", by decide⟩

/-- What is played; only videos have posters. -/
structure MediaSource where
  kind : MediaKind
  src : AssetPath platform
  title : Bounded 0 200
  poster : Option (AssetPath platform)
  video : kind = .audio → poster = none

def mediaSource (read : MediaKind × AssetPath platform × Option (Bounded 0 200) × Option (AssetPath platform)) :
    Except JsString (MediaSource platform) :=
  if h : read.1 = .audio → read.2.2.2 = none then
    .ok ⟨read.1, read.2.1, read.2.2.1.getD read.1.defaultTitle, read.2.2.2, h⟩
  else .error (js "Content extension props.poster is available only for video.")

def mediaSourceFields : Fields arithmetic (MediaSource platform) :=
  ((field (js "kind") (word arithmetic mediaKinds
      (js "Content extension props.kind must be \"audio\" or \"video\"."))).and <|
    (field (js "src") (requireAssetPath platform arithmetic (atProps "src"))).and <|
    (field (js "title") (optionalBoundedString arithmetic (atProps "title") 200)).and <|
    field (js "poster") (optionalAssetPath platform arithmetic (atProps "poster"))).via (mediaSource platform)
    (fun source => (source.kind, source.src, some source.title, source.poster)) id (fun source => dif_pos source.video)
    (by
      rintro ⟨kind, src, title, _ | poster, video⟩
      · rfl
      · rfl)

structure MediaProps where
  source : MediaSource platform
  caption : Option (Bounded 0 300)

def mediaFields : Fields arithmetic (MediaProps platform) :=
  ((mediaSourceFields platform arithmetic).and <| caption arithmetic (atProps "caption")).named
    (fun (source, caption) => ⟨source, caption⟩) (fun props => (props.source, props.caption)) (fun _ => rfl)
    fun _ => rfl

def parseMedia : Codec arithmetic (MediaProps platform) :=
  object (js "Content extension props") [js "kind", js "src", js "title", js "poster", js "caption"]
    (mediaFields platform arithmetic) rfl (by decide)

/-! ## YouTube -/

def isVideoId (id : JsString) : Bool := id.all fun unit => isLetterOrDigit unit || unit = 95 || unit = 45

structure YoutubeProps where
  videoId : { id : JsString // (ofLength 6 64 id && isVideoId id) = true }
  title : Bounded 0 200
  start : Whole arithmetic 0 86400
  controls : Bool

def youtubeFields : Fields arithmetic (YoutubeProps arithmetic) :=
  ((field (js "videoId") (checkedString arithmetic _ fun read =>
      if read.any (ofLength 6 64) then
        js "Content extension props.videoId must contain only YouTube identifier characters."
      else boundedMessage (atProps "videoId") 6 64)).and <|
    (field (js "title") (stringOr arithmetic (atProps "title") 200 ⟨js "YouTube video", by decide⟩)).and <|
    (field (js "start") (boundedInteger arithmetic (atProps "start") 0 86400 0)).and <|
    field (js "controls") (strictBoolean arithmetic (atProps "controls") true)).named
    (fun (videoId, title, start, controls) => ⟨videoId, title, start, controls⟩)
    (fun props => (props.videoId, props.title, props.start, props.controls)) (fun _ => rfl) fun _ => rfl

def parseYoutube : Codec arithmetic (YoutubeProps arithmetic) :=
  object (js "Content extension props") [js "videoId", js "title", js "start", js "controls"] (youtubeFields arithmetic)
    rfl (by decide)

/-! ## Diagrams -/

inductive DiagramTheme
  | auto
  | default
  | dark
  | neutral
  | forest
  deriving DecidableEq

def diagramThemes : Words DiagramTheme where
  all := [.auto, .default, .dark, .neutral, .forest]
  text
    | .auto => js "auto"
    | .default => js "default"
    | .dark => js "dark"
    | .neutral => js "neutral"
    | .forest => js "forest"
  find a := by cases a <;> decide

inductive DiagramAlign
  | left
  | center
  deriving DecidableEq

def diagramAligns : Words DiagramAlign where
  all := [.left, .center]
  text
    | .left => js "left"
    | .center => js "center"
  find a := by cases a <;> decide

inductive DiagramFormat
  | svg
  | png
  deriving DecidableEq

def diagramFormats : Words DiagramFormat where
  all := [.svg, .png]
  text
    | .svg => js "svg"
    | .png => js "png"
  find a := by cases a <;> decide

def diagramSource : Fields arithmetic (Bounded 1 50000) :=
  field (js "source") (boundedString arithmetic (atProps "source") 1 50000)

def diagramAlign : Fields arithmetic DiagramAlign :=
  field (js "align") (oneOf arithmetic diagramAligns .left
    (js "Content extension props.align must be \"left\" or \"center\"."))

def diagramFormat : Fields arithmetic DiagramFormat :=
  field (js "format") (oneOf arithmetic diagramFormats .svg
    (js "Content extension props.format must be \"svg\" or \"png\"."))

structure DiagramProps where
  source : Bounded 1 50000
  caption : Option (Bounded 0 300)
  theme : DiagramTheme
  align : DiagramAlign

def diagramFields : Fields arithmetic DiagramProps :=
  ((diagramSource arithmetic).and <|
    (caption arithmetic (atProps "caption")).and <|
    (field (js "theme") (oneOf arithmetic diagramThemes .auto (js ("Content extension props.theme must be "
      ++ "\"auto\", \"default\", \"dark\", \"neutral\", or \"forest\".")))).and <|
    diagramAlign arithmetic).named
    (fun (source, caption, theme, align) => ⟨source, caption, theme, align⟩)
    (fun props => (props.source, props.caption, props.theme, props.align)) (fun _ => rfl) fun _ => rfl

def parseDiagram : Codec arithmetic DiagramProps :=
  object (js "Content extension props") [js "source", js "caption", js "theme", js "align"] (diagramFields arithmetic)
    rfl (by decide)

def KROKI_DIAGRAM_TYPES : List JsString :=
  ["actdiag", "blockdiag", "bpmn", "bytefield", "c4plantuml", "d2", "dbml", "ditaa", "erd", "excalidraw", "graphviz",
    "mermaid", "nomnoml", "nwdiag", "packetdiag", "pikchr", "plantuml", "rackdiag", "seqdiag", "structurizr", "svgbob",
    "symbolator", "tikz", "umlet", "vega", "vegalite", "wavedrom", "wireviz"].map js

structure KrokiProps where
  type : { name : JsString // name ∈ KROKI_DIAGRAM_TYPES }
  source : Bounded 1 50000
  format : DiagramFormat
  caption : Option (Bounded 0 300)
  align : DiagramAlign

def krokiFields : Fields arithmetic KrokiProps :=
  ((field (js "type") (word arithmetic (tableWords KROKI_DIAGRAM_TYPES)
      (js "Content extension props.type must be a supported Kroki diagram type."))).and <|
    (diagramSource arithmetic).and <|
    (diagramFormat arithmetic).and <|
    (caption arithmetic (atProps "caption")).and <|
    diagramAlign arithmetic).named
    (fun (type, source, format, caption, align) => ⟨type, source, format, caption, align⟩)
    (fun props => (props.type, props.source, props.format, props.caption, props.align)) (fun _ => rfl) fun _ => rfl

def parseKroki : Codec arithmetic KrokiProps :=
  object (js "Content extension props") [js "type", js "source", js "format", js "caption", js "align"]
    (krokiFields arithmetic) rfl (by decide)

structure PlantUmlProps where
  source : Bounded 1 50000
  format : DiagramFormat
  caption : Option (Bounded 0 300)
  align : DiagramAlign

def plantUmlFields : Fields arithmetic PlantUmlProps :=
  ((diagramSource arithmetic).and <|
    (diagramFormat arithmetic).and <|
    (caption arithmetic (atProps "caption")).and <|
    diagramAlign arithmetic).named
    (fun (source, format, caption, align) => ⟨source, format, caption, align⟩)
    (fun props => (props.source, props.format, props.caption, props.align)) (fun _ => rfl) fun _ => rfl

def parsePlantUml : Codec arithmetic PlantUmlProps :=
  object (js "Content extension props") [js "source", js "format", js "caption", js "align"] (plantUmlFields arithmetic)
    rfl (by decide)

/-! ## Maps -/

structure MapProps where
  latitude : Between arithmetic (-90) 90
  longitude : Between arithmetic (-180) 180
  zoom : Whole arithmetic 1 19
  height : Whole arithmetic 240 800
  label : Option (Bounded 0 200)

def mapFields : Fields arithmetic (MapProps arithmetic) :=
  ((field (js "latitude") (boundedNumber arithmetic (atProps "latitude") (-90) 90)).and <|
    (field (js "longitude") (boundedNumber arithmetic (atProps "longitude") (-180) 180)).and <|
    (field (js "zoom") (boundedInteger arithmetic (atProps "zoom") 1 19 13)).and <|
    (field (js "height") (boundedInteger arithmetic (atProps "height") 240 800 400)).and <|
    field (js "label") (optionalBoundedString arithmetic (atProps "label") 200)).named
    (fun (latitude, longitude, zoom, height, label) => ⟨latitude, longitude, zoom, height, label⟩)
    (fun props => (props.latitude, props.longitude, props.zoom, props.height, props.label)) (fun _ => rfl) fun _ => rfl

def parseMap : Codec arithmetic (MapProps arithmetic) :=
  object (js "Content extension props") [js "latitude", js "longitude", js "zoom", js "height", js "label"]
    (mapFields arithmetic) rfl (by decide)

end TsEpistle.ContentExtensions
