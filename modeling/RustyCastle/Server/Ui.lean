import RustyCastle.Server.Control

/-!
The pages of the browser interface. A page is made of lines, and the texts of the
catalog are escaped in it.
-/

namespace RustyCastle.Server
open Foundation RustyCastle.Dlna

/-- The outcome of the last scan. Times are nanoseconds since the Unix epoch. -/
structure ScanStatus where
  lastScanTime : Option Int
  lastScanDuration : Option Nat
  itemCount : Nat
  error : Option Str
  deriving DecidableEq, Repr

def htmlEscapeChar : Char → Str
  | '&' => "&amp;".toList
  | '<' => "&lt;".toList
  | '>' => "&gt;".toList
  | '"' => "&quot;".toList
  | '\'' => "&#39;".toList
  | c => [c]

def htmlEscape (value : Str) : Str := value.flatMap htmlEscapeChar

def nanosPerSecond : Nat := 1000000000

/-- Seconds before the epoch are counted away from it. -/
def formatScanTime (time : Int) : Str :=
  let seconds := Decimal.numeral (time.natAbs / nanosPerSecond) ++ "s since epoch".toList
  if 0 ≤ time then seconds else '-' :: seconds

def scanStatusSummary (status : ScanStatus) : Str :=
  match status.lastScanTime, status.error with
  | some _, some _ => "failed".toList
  | some _, none => Decimal.numeral status.itemCount ++ " items".toList
  | none, _ => "never".toList

def scanStatusTime (status : ScanStatus) : Str :=
  (status.lastScanTime.map formatScanTime).getD "never".toList

def scanStatusDuration (status : ScanStatus) : Str :=
  Str.whenSome status.lastScanDuration fun duration =>
    Decimal.numeral (duration / 1000000) ++ " ms".toList

def scanErrorHtml (status : ScanStatus) : Str :=
  Str.whenSome status.error fun error =>
    "<p class=\"error\">Last scan error: ".toList ++ htmlEscape error ++ "</p>".toList

def optionalSize (size : Option UInt64) : Str :=
  Str.whenSome size fun value => Decimal.numeral value.toNat

def tableCell (value : Str) : Str := "<td>".toList ++ htmlEscape value ++ "</td>".toList

def linkedTableCell (value : Str) : Str :=
  if value.isEmpty then "<td></td>".toList
  else "<td><a href=\"".toList ++ htmlEscape value ++ "\">".toList ++ htmlEscape value ++
    "</a></td>".toList

def containerRow (container : MediaContainer) : Str :=
  "<tr>".toList ++ tableCell container.id ++ tableCell container.parentId ++
    tableCell container.title ++ tableCell [] ++ tableCell [] ++ tableCell [] ++ tableCell [] ++
    tableCell [] ++ "</tr>".toList

def itemRow (item : MediaItem) : Str :=
  "<tr>".toList ++ tableCell item.id ++ tableCell item.parentId ++ tableCell item.title ++
    tableCell item.mimeType ++ tableCell (optionalSize item.size) ++
    tableCell (item.duration.getD []) ++ linkedTableCell item.url ++
    tableCell item.protocolInfo.fmt ++ "</tr>".toList

def lines (texts : List String) : List Str := texts.map String.toList

def metric (value : Str) (label : String) : Str :=
  "<div class=\"metric\"><strong>".toList ++ value ++ "</strong><span>".toList ++ label.toList ++
    "</span></div>".toList

def htmlPage (texts : List Str) : Str := ['\n'].intercalate texts

def rescanForm : String :=
  "<form method=\"post\" action=\"/ui/rescan\">" ++
    "<button type=\"submit\">Rescan library</button></form>"

def tableHead : String :=
  "<thead><tr><th>Object ID</th><th>Parent ID</th><th>Title</th><th>MIME type</th>" ++
    "<th>Size</th><th>Duration</th><th>Media URL</th><th>protocolInfo</th></tr></thead>"

def indexPage (catalog : StaticCatalog) (scanStatus : ScanStatus) : Str :=
  htmlPage <|
    lines
      ["<!doctype html>",
        "<html lang=\"en\">",
        "<head>",
        "<meta charset=\"utf-8\">",
        "<meta name=\"viewport\" content=\"width=device-width, initial-scale=1\">",
        "<title>Rusty Castle Observatory</title>",
        "<style>",
        ":root \x7b color-scheme: light dark; font-family: system-ui, sans-serif; \x7d",
        "body \x7b margin: 0; background: #f7f7f3; color: #202124; \x7d",
        "main \x7b max-width: 760px; margin: 0 auto; padding: 48px 24px; \x7d",
        "h1 \x7b font-size: 2rem; margin: 0 0 12px; \x7d",
        "p \x7b line-height: 1.5; \x7d",
        ".metric \x7b display: inline-block; margin: 16px 16px 0 0; \x7d",
        ".metric strong \x7b display: block; font-size: 1.75rem; \x7d",
        "form \x7b margin-top: 24px; \x7d",
        "button \x7b padding: 8px 12px; font: inherit; \x7d",
        ".error \x7b color: #b3261e; \x7d",
        "</style>",
        "</head>",
        "<body>",
        "<main>",
        "<h1>Rusty Castle Observatory</h1>",
        "<p>Experimental DLNA MediaServer inspection surface.</p>",
        "<p><a href=\"/ui/library\">Open library</a></p>"] ++
    [metric (Decimal.numeral catalog.items.length) "media items",
      metric (Decimal.numeral catalog.containers.length) "containers",
      metric (scanStatusSummary scanStatus) "last scan"] ++
    lines [rescanForm] ++
    [scanErrorHtml scanStatus] ++
    lines
      ["</main>",
        "</body>",
        "</html>"]

def libraryPage (catalog : StaticCatalog) (scanStatus : ScanStatus) : Str :=
  let containers := catalog.containers.flatMap containerRow
  let items := catalog.items.flatMap itemRow
  htmlPage <|
    lines
      ["<!doctype html>",
        "<html lang=\"en\">",
        "<head>",
        "<meta charset=\"utf-8\">",
        "<meta name=\"viewport\" content=\"width=device-width, initial-scale=1\">",
        "<title>Rusty Castle Library</title>",
        "<style>",
        ":root \x7b color-scheme: light dark; font-family: system-ui, sans-serif; \x7d",
        "body \x7b margin: 0; background: #f7f7f3; color: #202124; \x7d",
        "main \x7b max-width: 1200px; margin: 0 auto; padding: 32px 24px; \x7d",
        "a \x7b color: #1a5fb4; \x7d",
        "h1 \x7b font-size: 1.75rem; margin: 16px 0 8px; \x7d",
        "h2 \x7b font-size: 1.1rem; margin: 32px 0 12px; \x7d",
        "p \x7b line-height: 1.5; \x7d",
        ".summary \x7b display: flex; flex-wrap: wrap; gap: 16px; margin: 20px 0; \x7d",
        ".metric strong \x7b display: block; font-size: 1.4rem; \x7d",
        ".table-wrap \x7b overflow-x: auto; border: 1px solid #d7d7cf; background: #fff; \x7d",
        "table \x7b border-collapse: collapse; min-width: 100%; font-size: 0.9rem; \x7d",
        "th, td \x7b border-bottom: 1px solid #e4e4dc; padding: 10px 12px; " ++
          "text-align: left; vertical-align: top; \x7d",
        "th \x7b background: #ededdf; font-weight: 650; white-space: nowrap; \x7d",
        "td \x7b overflow-wrap: anywhere; \x7d",
        "code \x7b font-family: ui-monospace, SFMono-Regular, Menlo, Consolas, monospace; " ++
          "font-size: 0.85em; \x7d",
        "@media (prefers-color-scheme: dark) \x7b",
        "  body \x7b background: #191a1a; color: #eeeeea; \x7d",
        "  a \x7b color: #8ab4f8; \x7d",
        "  .table-wrap \x7b border-color: #3a3b3b; background: #202124; \x7d",
        "  th, td \x7b border-bottom-color: #343535; \x7d",
        "  th \x7b background: #2a2b2b; \x7d",
        "\x7d",
        "</style>",
        "</head>",
        "<body>",
        "<main>",
        "<p><a href=\"/ui\">Observatory</a></p>",
        "<h1>Library</h1>",
        "<p>Read-only view of the current ContentDirectory catalog.</p>",
        rescanForm,
        "<div class=\"summary\">"] ++
    [metric (Decimal.numeral catalog.containers.length) "containers",
      metric (Decimal.numeral catalog.items.length) "media items",
      metric (Decimal.numeral catalog.updateId.toNat) "update id",
      metric (scanStatusTime scanStatus) "last scan",
      metric (scanStatusDuration scanStatus) "scan duration"] ++
    lines
      ["</div>"] ++
    [scanErrorHtml scanStatus] ++
    lines
      ["<h2>Containers</h2>",
        "<div class=\"table-wrap\">",
        "<table>",
        tableHead] ++
    ["<tbody>".toList ++ containers ++ "</tbody>".toList] ++
    lines
      ["</table>",
        "</div>",
        "<h2>Media Items</h2>",
        "<div class=\"table-wrap\">",
        "<table>",
        tableHead] ++
    ["<tbody>".toList ++ items ++ "</tbody>".toList] ++
    lines
      ["</table>",
        "</div>",
        "</main>",
        "</body>",
        "</html>"]

/-- The page of a failed scan. -/
def rescanFailedPage (message : Str) : Str :=
  "<!doctype html><html lang=\"en\"><head><meta charset=\"utf-8\">".toList ++
    "<title>Rescan failed</title></head><body><main><h1>Rescan failed</h1><p>".toList ++
    htmlEscape message ++
    "</p><p><a href=\"/ui/library\">Back to library</a></p></main></body></html>".toList

end RustyCastle.Server
