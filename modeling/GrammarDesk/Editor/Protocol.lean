import GrammarDesk.Editor.Capabilities

/-! The methods that the protocol has, with the shapes of what they take. Most
are not offered, but a request for one of them is checked before it is refused. -/
namespace GrammarDesk.Shape

def place : Shape := record "Position" [("line", u32), ("character", u32)]

def range : Shape := record "Range" [("start", place), ("end", place)]

def location : Shape := record "Location" [("uri", uri), ("range", range)]

def document : Shape := record "TextDocumentIdentifier" [("uri", uri)]

def inDocument : String × Shape := ("textDocument", document)

def token : Shape := choice "NumberOrString" [i32, text]

def atPoint : Shape := record "TextDocumentPositionParams" [inDocument, ("position", place)]

def progress : Shape := record "WorkDoneProgressParams" [("workDoneToken", optional token)]

def partialResult : Shape :=
  record "PartialResultParams" [("partialResultToken", optional token)]

def command : Shape :=
  record "Command" [("title", text), ("command", text), ("arguments", optional (list any))]

def edit : Shape := record "TextEdit" [("range", range), ("newText", text)]

def edits : Shape := optional (list edit)

def documentation : Shape :=
  choice "Documentation" [text, record "MarkupContent" [("kind", markupKind), ("value", text)]]

def diagnostic : Shape :=
  record "Diagnostic"
    [("range", range), ("severity", optional i32), ("code", optional token),
      ("codeDescription", optional (record "CodeDescription" [("href", uri)])),
      ("source", optional text), ("message", text),
      ("relatedInformation", optional <| list <| record "DiagnosticRelatedInformation"
        [("location", location), ("message", text)]),
      ("tags", optional (list i32)), ("data", optional any)]

def action : Shape :=
  record "CodeAction"
    [("title", text), ("kind", optional text), ("diagnostics", optional (list diagnostic)),
      ("edit", optional <| record "WorkspaceEdit"
        [("changes", defaulted (optional (keyed (list edit)))),
          ("documentChanges", optional any), ("changeAnnotations", optional any)]),
      ("command", optional command), ("isPreferred", optional truth),
      ("disabled", optional (record "CodeActionDisabled" [("reason", text)])),
      ("data", optional any)]

def completionItem : Shape :=
  record "CompletionItem"
    [("label", text),
      ("labelDetails", optional <| record "CompletionItemLabelDetails"
        [("detail", optional text), ("description", optional text)]),
      ("kind", optional i32), ("detail", optional text),
      ("documentation", optional documentation), ("deprecated", optional truth),
      ("preselect", optional truth), ("sortText", optional text), ("filterText", optional text),
      ("insertText", optional text), ("insertTextFormat", optional i32),
      ("insertTextMode", optional i32),
      ("textEdit", optional <| choice "CompletionTextEdit"
        [edit, record "InsertReplaceEdit"
          [("newText", text), ("insert", range), ("replace", range)]]),
      ("additionalTextEdits", edits), ("command", optional command),
      ("commitCharacters", optional (list text)), ("data", optional any),
      ("tags", optional (list i32))]

def hierarchyItem (name : String) (tags : Shape) : Shape :=
  record name
    [("name", text), ("kind", i32), ("tags", optional tags), ("detail", optional text),
      ("uri", uri), ("range", range), ("selectionRange", range), ("data", optional any)]

def callItem : Shape := hierarchyItem "CallHierarchyItem" (list i32)

def typeItem : Shape := hierarchyItem "TypeHierarchyItem" i32

def hint : Shape :=
  record "InlayHint"
    [("position", place),
      ("label", choice "InlayHintLabel" [text, list <| record "InlayHintLabelPart"
        [("value", text), ("tooltip", optional documentation), ("location", optional location),
          ("command", optional command)]]),
      ("kind", optional i32), ("textEdits", edits),
      ("tooltip", optional <| choice "InlayHintTooltip"
        [text, record "MarkupContent" [("kind", markupKind), ("value", text)]]),
      ("paddingLeft", optional truth), ("paddingRight", optional truth),
      ("data", optional any)]

def signatureHelp : Shape :=
  record "SignatureHelp"
    [("signatures", list <| record "SignatureInformation"
        [("label", text), ("documentation", optional documentation),
          ("parameters", optional <| list <| record "ParameterInformation"
            [("label", choice "ParameterLabel" [text, list u32]),
              ("documentation", optional documentation)]),
          ("activeParameter", optional u32)]),
      ("activeSignature", optional u32), ("activeParameter", optional u32)]

def formatting : String × Shape :=
  ("options", joined "FormattingOptions"
    ([("tabSize", u32), ("insertSpaces", truth)] ++
      switches ["trimTrailingWhitespace", "insertFinalNewline", "trimFinalNewlines"])
    [keyed (choice "FormattingProperty" [truth, i32, text])])

def saving : Shape :=
  record "WillSaveTextDocumentParams" [inDocument, ("reason", i32)]

def atPlace (name : String) : Shape := joined name [] [atPoint, progress]

def atPlaceInParts (name : String) : Shape := joined name [] [atPoint, progress, partialResult]

def inParts (name : String) (fields : List (String × Shape)) : Shape :=
  joined name fields [progress, partialResult]

def files (name item : String) (fields : List String) : Shape :=
  record name [("files", list (record item (fields.map fun field => (field, text))))]

def completion : Shape :=
  joined "CompletionParams"
    [("context", optional <| record "CompletionContext"
      [("triggerKind", i32), ("triggerCharacter", optional text)])]
    [atPoint, progress, partialResult]

def opening : Shape :=
  record "DidOpenTextDocumentParams" [("textDocument", record "TextDocumentItem"
    [("uri", uri), ("languageId", text), ("version", i32), ("text", text)])]

def changing : Shape :=
  record "DidChangeTextDocumentParams"
    [("textDocument", record "VersionedTextDocumentIdentifier"
        [("uri", uri), ("version", i32)]),
      ("contentChanges", list <| record "TextDocumentContentChangeEvent"
        [("range", optional range), ("rangeLength", optional u32), ("text", text)])]

def closing : Shape := record "DidCloseTextDocumentParams" [inDocument]

def sampling : Shape := record "DidChangeSampleParams" [("uri", uri), ("text", text)]

end GrammarDesk.Shape

namespace GrammarDesk.Protocol

open Shape

def documentRequests : List (String × Shape) :=
  [("willSaveWaitUntil", saving), ("declaration", atPlaceInParts "GotoDefinitionParams"),
    ("definition", atPlaceInParts "GotoDefinitionParams"),
    ("typeDefinition", atPlaceInParts "GotoDefinitionParams"),
    ("implementation", atPlaceInParts "GotoDefinitionParams"),
    ("references", joined "ReferenceParams"
      [("context", record "ReferenceContext" [("includeDeclaration", truth)])]
      [atPoint, progress, partialResult]),
    ("prepareCallHierarchy", atPlace "CallHierarchyPrepareParams"),
    ("prepareTypeHierarchy", atPlace "TypeHierarchyPrepareParams"),
    ("documentHighlight", atPlaceInParts "DocumentHighlightParams"),
    ("documentLink", inParts "DocumentLinkParams" [inDocument]),
    ("hover", atPlace "HoverParams"), ("codeLens", inParts "CodeLensParams" [inDocument]),
    ("foldingRange", inParts "FoldingRangeParams" [inDocument]),
    ("selectionRange", inParts "SelectionRangeParams" [inDocument, ("positions", list place)]),
    ("documentSymbol", inParts "DocumentSymbolParams" [inDocument]),
    ("semanticTokens/full", inParts "SemanticTokensParams" [inDocument]),
    ("semanticTokens/full/delta",
      inParts "SemanticTokensDeltaParams" [inDocument, ("previousResultId", text)]),
    ("semanticTokens/range",
      inParts "SemanticTokensRangeParams" [inDocument, ("range", Shape.range)]),
    ("inlineValue", joined "InlineValueParams"
      [inDocument, ("range", Shape.range), ("context", record "InlineValueContext"
        [("frameId", i32), ("stoppedLocation", Shape.range)])]
      [progress]),
    ("inlayHint", joined "InlayHintParams" [inDocument, ("range", Shape.range)] [progress]),
    ("moniker", atPlaceInParts "MonikerParams"), ("completion", completion),
    ("diagnostic", inParts "DocumentDiagnosticParams"
      [inDocument, ("identifier", optional text), ("previousResultId", optional text)]),
    ("signatureHelp", joined "SignatureHelpParams"
      [("context", optional <| record "SignatureHelpContext"
        [("triggerKind", i32), ("triggerCharacter", optional text), ("isRetrigger", truth),
          ("activeSignatureHelp", optional signatureHelp)])]
      [atPoint, progress]),
    ("codeAction", inParts "CodeActionParams"
      [inDocument, ("range", Shape.range), ("context", record "CodeActionContext"
        [("diagnostics", list diagnostic), ("only", optional (list text)),
          ("triggerKind", optional i32)])]),
    ("documentColor", inParts "DocumentColorParams" [inDocument]),
    ("colorPresentation", inParts "ColorPresentationParams"
      [inDocument, ("color", record "Color"
        [("red", number), ("green", number), ("blue", number), ("alpha", number)]),
        ("range", Shape.range)]),
    ("formatting", joined "DocumentFormattingParams" [inDocument, Shape.formatting] [progress]),
    ("rangeFormatting", joined "DocumentRangeFormattingParams"
      [inDocument, ("range", Shape.range), Shape.formatting] [progress]),
    ("onTypeFormatting",
      joined "DocumentOnTypeFormattingParams" [("ch", text), Shape.formatting] [atPoint]),
    ("rename", joined "RenameParams" [("newName", text)] [atPoint, progress]),
    ("prepareRename", atPoint), ("linkedEditingRange", atPlace "LinkedEditingRangeParams")]

def otherRequests : List (String × Shape) :=
  [("callHierarchy/incomingCalls",
      inParts "CallHierarchyIncomingCallsParams" [("item", callItem)]),
    ("callHierarchy/outgoingCalls",
      inParts "CallHierarchyOutgoingCallsParams" [("item", callItem)]),
    ("typeHierarchy/supertypes",
      inParts "TypeHierarchySupertypesParams" [("item", typeItem)]),
    ("typeHierarchy/subtypes", inParts "TypeHierarchySubtypesParams" [("item", typeItem)]),
    ("documentLink/resolve", record "DocumentLink"
      [("range", Shape.range), ("target", optional uri), ("tooltip", optional text),
        ("data", optional any)]),
    ("codeLens/resolve", record "CodeLens"
      [("range", Shape.range), ("command", optional command), ("data", optional any)]),
    ("inlayHint/resolve", hint), ("completionItem/resolve", completionItem),
    ("codeAction/resolve", action),
    ("workspace/diagnostic", inParts "WorkspaceDiagnosticParams"
      [("identifier", optional text),
        ("previousResultIds", list (record "PreviousResultId" [("uri", uri), ("value", text)]))]),
    ("workspace/symbol",
      joined "WorkspaceSymbolParams" [("query", text)] [partialResult, progress]),
    ("workspaceSymbol/resolve", record "WorkspaceSymbol"
      [("name", text), ("kind", i32), ("tags", optional (list i32)),
        ("containerName", optional text),
        ("location", choice "OneOf" [location, record "WorkspaceLocation" [("uri", uri)]]),
        ("data", optional any)]),
    ("workspace/willCreateFiles", files "CreateFilesParams" "FileCreate" ["uri"]),
    ("workspace/willRenameFiles", files "RenameFilesParams" "FileRename" ["oldUri", "newUri"]),
    ("workspace/willDeleteFiles", files "DeleteFilesParams" "FileDelete" ["uri"]),
    ("workspace/executeCommand", joined "ExecuteCommandParams"
      [("command", text), ("arguments", defaulted (list any))] [progress])]

/-- The requests that a running service takes, with what they take. -/
def requests : List (String × Shape) :=
  documentRequests.map (fun (name, shape) => ("textDocument/" ++ name, shape)) ++ otherRequests

def calls : List (String × Shape) :=
  [("textDocument/didOpen", opening), ("textDocument/didChange", changing),
    ("textDocument/didClose", closing), ("ebnf/didChangeSample", sampling)]

/-- The notifications that are taken and change nothing. -/
def idle : List String :=
  ["initialized", "textDocument/willSave", "textDocument/didSave",
    "workspace/didChangeConfiguration", "workspace/didChangeWorkspaceFolders",
    "workspace/didCreateFiles", "workspace/didRenameFiles", "workspace/didDeleteFiles",
    "workspace/didChangeWatchedFiles"]

inductive Method where
  | start
  | shutdown
  | exit
  /-- Nothing takes so long that it could be cancelled. -/
  | cancel
  | request (shape : Shape)
  | notification (shape : Shape)
  | unknown

def method (name : String) : Method :=
  match name with
  | "initialize" => .start
  | "shutdown" => .shutdown
  | "exit" => .exit
  | "$/cancelRequest" => .cancel
  | name =>
    match requests.lookup name, calls.lookup name with
    | some shape, _ => .request shape
    | none, some shape => .notification shape
    | none, none => if idle.contains name then .notification .any else .unknown

end GrammarDesk.Protocol
