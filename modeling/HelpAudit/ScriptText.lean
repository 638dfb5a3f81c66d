import HelpAudit.Text.Utf16
import HelpAudit.Text.Windows1252

/-! The text of a script file. A byte order mark tells UTF-16; other files are UTF-8, or Windows-1252
    when they are no UTF-8. The mark does not belong to the text. -/

namespace HelpAudit

/-- The text of the bytes of a script file. -/
def decodeScript (bytes : List UInt8) : String :=
  let text := match bytes with
    | 0xFF :: 0xFE :: rest => Text.decodeUtf16 .littleEndian rest
    | 0xFE :: 0xFF :: rest => Text.decodeUtf16 .bigEndian rest
    | _ =>
      match Text.decodeUtf8? bytes, bytes with
      | some text, _ => text
      | none, 0xEF :: 0xBB :: 0xBF :: rest => Text.decodeLossy rest
      | none, _ => Text.decodeWindows1252 bytes
  .ofList (match text with
    | '\ufeff' :: rest => rest
    | text => text)

end HelpAudit
