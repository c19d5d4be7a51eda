import GrammarDesk.Editor.Shape

/-! What an editor says about itself when it starts the server. Nothing of it is
used, but it has to have the right shape. -/
namespace GrammarDesk.Shape

def u32 : Shape := whole "u32" 0 4294967295

def i32 : Shape := whole "i32" (-2147483648) 2147483647

def switches (names : List String) : List (String × Shape) :=
  names.map fun name => (name, optional truth)

/-- A record with no fields but optional truth values. -/
def switchboard (name : String) (names : List String) : Shape :=
  optional (record name (switches names))

def dynamic : Shape :=
  switchboard "DynamicRegistrationClientCapabilities" ["dynamicRegistration"]

def refreshable (name : String) : Shape := switchboard name ["refreshSupport"]

def lateProperties (name : String) : Shape := optional (record name [("properties", list text)])

def markupKind : Shape := word ["plaintext", "markdown"]

def markupKinds : Shape := optional (list markupKind)

def knownKinds (name : String) : Shape :=
  optional (record name [("valueSet", optional (list i32))])

def workspaceAbilities : Shape :=
  record "WorkspaceClientCapabilities" <|
    switches ["applyEdit"] ++
    [("workspaceEdit", optional <| record "WorkspaceEditClientCapabilities" <|
        switches ["documentChanges"] ++
        [("resourceOperations", optional (list (word ["create", "rename", "delete"]))),
          ("failureHandling",
            optional (word ["abort", "transactional", "textOnlyTransactional", "undo"]))] ++
        switches ["normalizesLineEndings"] ++
        [("changeAnnotationSupport",
            switchboard "ChangeAnnotationWorkspaceEditClientCapabilities" ["groupsOnLabel"])]),
      ("didChangeConfiguration", dynamic),
      ("didChangeWatchedFiles",
        switchboard "DidChangeWatchedFilesClientCapabilities"
          ["dynamicRegistration", "relativePatternSupport"]),
      ("symbol", optional <| record "WorkspaceSymbolClientCapabilities" <|
        switches ["dynamicRegistration"] ++
        [("symbolKind", knownKinds "SymbolKindCapability"), ("tagSupport", optional any),
          ("resolveSupport", lateProperties "WorkspaceSymbolResolveSupportCapability")]),
      ("executeCommand", dynamic)] ++
    switches ["workspaceFolders", "configuration"] ++
    [("semanticTokens", refreshable "SemanticTokensWorkspaceClientCapabilities"),
      ("codeLens", refreshable "CodeLensWorkspaceClientCapabilities"),
      ("fileOperations", switchboard "WorkspaceFileOperationsClientCapabilities"
        ["dynamicRegistration", "didCreate", "willCreate", "didRename", "willRename", "didDelete",
          "willDelete"]),
      ("inlineValue", refreshable "InlineValueWorkspaceClientCapabilities"),
      ("inlayHint", refreshable "InlayHintWorkspaceClientCapabilities"),
      ("diagnostic", refreshable "DiagnosticWorkspaceClientCapabilities")]

def completionItemAbilities : Shape :=
  record "CompletionItemCapability" <|
    switches ["snippetSupport", "commitCharactersSupport"] ++
    [("documentationFormat", markupKinds)] ++
    switches ["deprecatedSupport", "preselectSupport"] ++
    [("tagSupport", optional any)] ++
    switches ["insertReplaceSupport"] ++
    [("resolveSupport", lateProperties "CompletionItemCapabilityResolveSupport"),
      ("insertTextModeSupport",
        optional (record "InsertTextModeSupport" [("valueSet", list i32)]))] ++
    switches ["labelDetailsSupport"]

def completionAbilities : Shape :=
  record "CompletionClientCapabilities" <|
    switches ["dynamicRegistration"] ++
    [("completionItem", optional completionItemAbilities),
      ("completionItemKind", knownKinds "CompletionItemKindCapability")] ++
    switches ["contextSupport"] ++
    [("insertTextMode", optional i32),
      ("completionList",
        optional (record "CompletionListCapability" [("itemDefaults", optional (list text))]))]

def signatureAbilities : Shape :=
  record "SignatureHelpClientCapabilities" <|
    switches ["dynamicRegistration"] ++
    [("signatureInformation", optional <| record "SignatureInformationSettings" <|
        [("documentationFormat", markupKinds),
          ("parameterInformation",
            switchboard "ParameterInformationSettings" ["labelOffsetSupport"])] ++
        switches ["activeParameterSupport"])] ++
    switches ["contextSupport"]

def actionAbilities : Shape :=
  record "CodeActionClientCapabilities" <|
    switches ["dynamicRegistration"] ++
    [("codeActionLiteralSupport", optional <| record "CodeActionLiteralSupport"
        [("codeActionKind",
          record "CodeActionKindLiteralSupport" [("valueSet", list text)])])] ++
    switches ["isPreferredSupport", "disabledSupport", "dataSupport"] ++
    [("resolveSupport", lateProperties "CodeActionCapabilityResolveSupport")] ++
    switches ["honorsChangeAnnotations"]

def semanticAbilities : Shape :=
  record "SemanticTokensClientCapabilities" <|
    switches ["dynamicRegistration"] ++
    [("requests", record "SemanticTokensClientCapabilitiesRequests"
        [("range", optional truth),
          ("full", optional (choice "SemanticTokensFullOptions"
            [truth, record "SemanticTokensFullOptions" [("delta", optional truth)]]))]),
      ("tokenTypes", list text), ("tokenModifiers", list text),
      ("formats", list (word ["relative"]))] ++
    switches ["overlappingTokenSupport", "multilineTokenSupport", "serverCancelSupport",
      "augmentsSyntaxTokens"]

def foldingAbilities : Shape :=
  record "FoldingRangeClientCapabilities" <|
    switches ["dynamicRegistration"] ++ [("rangeLimit", optional u32)] ++
    switches ["lineFoldingOnly"] ++
    [("foldingRangeKind", optional <| record "FoldingRangeKindCapability"
        [("valueSet", optional (list (word ["comment", "imports", "region"])))]),
      ("foldingRange", switchboard "FoldingRangeCapability" ["collapsedText"])]

def documentAbilities : Shape :=
  let goto : Shape := switchboard "GotoCapability" ["dynamicRegistration", "linkSupport"]
  record "TextDocumentClientCapabilities"
    [("synchronization", switchboard "TextDocumentSyncClientCapabilities"
        ["dynamicRegistration", "willSave", "willSaveWaitUntil", "didSave"]),
      ("completion", optional completionAbilities),
      ("hover", optional <| record "HoverClientCapabilities" <|
        switches ["dynamicRegistration"] ++ [("contentFormat", markupKinds)]),
      ("signatureHelp", optional signatureAbilities), ("references", dynamic),
      ("documentHighlight", dynamic),
      ("documentSymbol", optional <| record "DocumentSymbolClientCapabilities" <|
        switches ["dynamicRegistration"] ++
        [("symbolKind", knownKinds "SymbolKindCapability")] ++
        switches ["hierarchicalDocumentSymbolSupport"] ++ [("tagSupport", optional any)]),
      ("formatting", dynamic), ("rangeFormatting", dynamic), ("onTypeFormatting", dynamic),
      ("declaration", goto), ("definition", goto), ("typeDefinition", goto),
      ("implementation", goto), ("codeAction", optional actionAbilities), ("codeLens", dynamic),
      ("documentLink", switchboard "DocumentLinkClientCapabilities"
        ["dynamicRegistration", "tooltipSupport"]),
      ("colorProvider", dynamic),
      ("rename", optional <| record "RenameClientCapabilities" <|
        switches ["dynamicRegistration", "prepareSupport"] ++
        [("prepareSupportDefaultBehavior", optional i32)] ++
        switches ["honorsChangeAnnotations"]),
      ("publishDiagnostics", optional <| record "PublishDiagnosticsClientCapabilities" <|
        switches ["relatedInformation"] ++ [("tagSupport", optional any)] ++
        switches ["versionSupport", "codeDescriptionSupport", "dataSupport"]),
      ("foldingRange", optional foldingAbilities), ("selectionRange", dynamic),
      ("linkedEditingRange", dynamic), ("callHierarchy", dynamic),
      ("semanticTokens", optional semanticAbilities), ("moniker", dynamic),
      ("typeHierarchy", dynamic), ("inlineValue", dynamic),
      ("inlayHint", optional <| record "InlayHintClientCapabilities" <|
        switches ["dynamicRegistration"] ++
        [("resolveSupport", lateProperties "InlayHintResolveClientCapabilities")]),
      ("diagnostic", switchboard "DiagnosticClientCapabilities"
        ["dynamicRegistration", "relatedDocumentSupport"])]

def windowAbilities : Shape :=
  record "WindowClientCapabilities"
    [("workDoneProgress", optional truth),
      ("showMessage", optional <| record "ShowMessageRequestClientCapabilities"
        [("messageActionItem",
          switchboard "MessageActionItemCapabilities" ["additionalPropertiesSupport"])]),
      ("showDocument",
        optional (record "ShowDocumentClientCapabilities" [("support", truth)]))]

def generalAbilities : Shape :=
  record "GeneralClientCapabilities"
    [("regularExpressions", optional <| record "RegularExpressionsClientCapabilities"
        [("engine", text), ("version", optional text)]),
      ("markdown", optional <| record "MarkdownClientCapabilities"
        [("parser", text), ("version", optional text), ("allowedTags", optional (list text))]),
      ("staleRequestSupport", optional <| record "StaleRequestSupportClientCapabilities"
        [("cancel", truth), ("retryOnContentModified", list text)]),
      ("positionEncodings", optional (list text))]

def abilities : Shape :=
  record "ClientCapabilities"
    [("workspace", optional workspaceAbilities), ("textDocument", optional documentAbilities),
      ("notebookDocument", optional <| record "NotebookDocumentClientCapabilities"
        [("synchronization", record "NotebookDocumentSyncClientCapabilities" <|
          switches ["dynamicRegistration", "executionSummarySupport"])]),
      ("window", optional windowAbilities), ("general", optional generalAbilities),
      ("experimental", optional any)]

def introduction : Shape :=
  record "InitializeParams"
    [("processId", optional u32), ("rootPath", optional text),
      ("rootUri", defaulted (optional uri)), ("initializationOptions", optional any),
      ("capabilities", abilities),
      ("trace", defaulted (optional (word ["off", "messages", "verbose"]))),
      ("workspaceFolders", optional <| list <| record "WorkspaceFolder"
        [("uri", uri), ("name", text)]),
      ("clientInfo",
        optional (record "ClientInfo" [("name", text), ("version", optional text)])),
      ("locale", optional text)]

end GrammarDesk.Shape
