import Hikyo.Access.Scope

/-!
# The operation registry

The closed list of operations.  Each has a scope class, a depth of the tenant chain and a formula
over grants in disjunctive form, and `spec_valid` says that the whole table passes the check the
server makes when it starts.  Operations on the organisation of the instance's own configuration
have a formula of their own in addition.
-/

namespace Hikyo.Access

inductive Operation
  | selfConfigPreview | selfConfigStatus | selfConfigAdopt | selfConfigApply | selfConfigTest
  | selfConfigProvisionProject | orgCreate | orgGet | orgList | orgRename | orgDelete
  | projectCreate | projectGet | projectList | projectRename | projectDelete | envCreate | envRead
  | envList | envParameterSet | envRename | envReorder | envDelete | envUpdateNote | keyCreate
  | keyGet | keyList | keyRename | keyUpdateDeclaration | keyUpdateMetadata | keySetGroup
  | keyDelete | keyReclassify | keySecretRuleChange | keyDeclassify | definitionsExport
  | definitionsCheck | definitionsPlanCreate | definitionsPlanGet | definitionsApply
  | definitionsSettingsGet | definitionsSettingsSet | projectMachineRevealGet
  | projectMachineRevealSet | valueRead | valueList | valueReveal | revealWindowRead | valueSet
  | valueClear | valueCopySource | valueCopyDestination | valueCopyDestinationConfig
  | importPresence | valueImport | valueStage | valuePendingList | valuePublish | valueExport
  | valueExportReveal | valueExportRevealHistory | revisionList | revisionShow | revisionSignals
  | revisionRestore | revisionRestoreHistory | revisionRestoreCurrent | pinSet | pinSetHistory
  | pinList | pinRelease | approvalPolicyWrite | approvalPolicyRead | approvalRequestRead
  | approvalVote | approvalBypass | advisoryWatch | advisoryEvent | rotateTokenKey
  | rotateScanningKey | rotateDEK | rotateMasterKey | rotateRootKey | reencryptProject
  | reencryptInstance | keyGroupCreate | keyGroupGet | keyGroupList | keyGroupRename
  | keyGroupDelete | folderCreate | folderGet | folderList | folderRename | folderDelete
  | providerPut | providerGet | providerList | providerDelete | samlProviderPut | samlProviderPatch
  | samlProviderGet | samlProviderList | samlProviderDelete | samlProviderRefreshMetadata
  | samlSPKeyList | samlSPKeyRotate | samlSPKeyRetire | samlSPKeyCompromiseRetire | credentialReset
  | credentialResetInstance | auditQueryOrg | auditQueryProject | auditQueryEnv | auditExportOrg
  | auditExportProject | auditExportEnv | auditInstanceQuery | auditInstanceExport | grantCreateOrg
  | grantCreateProject | grantCreateEnv | grantCreateInstance | memberInviteOrg
  | memberInviteInstance | grantRevokeOrg | grantRevokeProject | grantRevokeEnv
  | grantRevokeInstance | grantListOrg | grantListProject | grantListInstance | templateApplyOrg
  | templateApplyProject | templateApplyEnv | templateApplyInstance | envSettingsRead
  | envSettingsUpdate | orgRetentionRead | orgRetentionUpdate | projectRetentionRead
  | projectRetentionUpdate | retentionHealthRead | updateStatusRead | updateRequest | updateJobRead
  | serviceAccountCreate | serviceAccountList | serviceAccountDelete | credentialMint
  | credentialList | credentialRevoke | credentialPolicyRead | credentialPolicyUpdate
  | federationIssuerCreate | federationIssuerList | federationIssuerUpdate | federationIssuerDelete
  | bindingCreate | deliveryFetch | deliveryReconcileOffline | scimBindingCreate | scimBindingGet
  | scimBindingList | scimBindingDelete | scimMappingCreate | scimMappingUpdate | scimMappingDelete
  | scimMappingList | scimCredentialMint | scimCredentialGet | scimCredentialList
  | scimCredentialRevoke | scimDirectoryUsers | scimDirectoryGroups | scimUserCreate | scimUserGet
  | scimUserList | scimUserReplace | scimUserPatch | scimUserDelete | scimGroupCreate | scimGroupGet
  | scimGroupList | scimGroupReplace | scimGroupPatch | scimGroupDelete | scimDiscovery
  | scimUnsupported | remoteDirectoryServe | remoteAdd | remoteList | remoteShow | remoteRename
  | remoteRemove | remoteCredentialCreate | remoteCredentialList | remoteCredentialShow
  | remoteCredentialRevoke | workspaceOriginList | workspaceOriginAdd | workspaceOriginRemove
  | adapterConfigure | adapterCredentialSet | adapterCredentialRevoke | adapterAdopt
  | adapterInspect | adapterPlan | adapterTest | adapterSync | adapterDelete | adapterPush
  | dynamicProviderConfigure | dynamicProviderInspect | dynamicProviderCredentialSet
  | dynamicProviderCredentialRevoke | dynamicProviderDelete | leaseMint | leaseInspect | leaseRenew
  | leaseRevoke | leaseSettle
deriving DecidableEq

inductive OpClass
  | tenant
  | instanceWide
deriving DecidableEq

structure Atom where
  cap : Capability
  at_ : Level

abbrev Formula := List Atom

structure Spec where
  class_ : OpClass
  level : Level
  formula : Formula

def spec : Operation → Spec
  | .selfConfigPreview | .selfConfigAdopt | .orgCreate =>
    ⟨.instanceWide, .none, [⟨.instanceConfig, .none⟩, ⟨.manageMembers, .none⟩]⟩
  | .selfConfigStatus | .orgList | .providerPut | .providerGet | .providerList | .providerDelete
  | .samlProviderPut | .samlProviderPatch | .samlProviderGet | .samlProviderList
  | .samlProviderDelete | .samlProviderRefreshMetadata | .samlSPKeyList | .samlSPKeyRotate
  | .samlSPKeyRetire | .samlSPKeyCompromiseRetire | .retentionHealthRead | .updateStatusRead
  | .updateRequest | .updateJobRead | .credentialPolicyRead | .credentialPolicyUpdate
  | .federationIssuerCreate | .federationIssuerUpdate | .federationIssuerDelete
  | .federationIssuerList | .remoteAdd | .remoteRename | .remoteRemove | .remoteCredentialCreate
  | .remoteCredentialList | .remoteCredentialShow | .remoteCredentialRevoke | .workspaceOriginList
  | .workspaceOriginAdd | .workspaceOriginRemove =>
    ⟨.instanceWide, .none, [⟨.instanceConfig, .none⟩]⟩
  | .selfConfigApply =>
    ⟨.tenant, .env, [⟨.instanceConfig, .none⟩, ⟨.read, .env⟩, ⟨.publish, .env⟩]⟩
  | .selfConfigTest =>
    ⟨.tenant, .env, [⟨.instanceConfig, .none⟩, ⟨.read, .env⟩]⟩
  | .selfConfigProvisionProject =>
    ⟨.tenant, .project, [⟨.instanceConfig, .none⟩, ⟨.definitionsEdit, .project⟩]⟩
  | .orgGet | .projectList | .orgRetentionRead =>
    ⟨.tenant, .org, [⟨.read, .org⟩]⟩
  | .orgRename | .grantCreateOrg | .grantRevokeOrg | .grantListOrg | .templateApplyOrg
  | .memberInviteOrg | .scimBindingCreate | .scimBindingGet | .scimBindingList | .scimBindingDelete
  | .scimMappingCreate | .scimMappingUpdate | .scimMappingDelete | .scimMappingList
  | .scimCredentialMint | .scimCredentialGet | .scimCredentialList | .scimCredentialRevoke
  | .scimDirectoryUsers | .scimDirectoryGroups =>
    ⟨.tenant, .org, [⟨.manageMembers, .org⟩]⟩
  | .orgDelete =>
    ⟨.tenant, .org, [⟨.instanceConfig, .none⟩]⟩
  | .credentialReset =>
    ⟨.tenant, .org, [⟨.credentialReset, .org⟩]⟩
  | .credentialResetInstance =>
    ⟨.instanceWide, .none, [⟨.credentialReset, .none⟩]⟩
  | .projectCreate =>
    ⟨.tenant, .org, [⟨.manageProjects, .org⟩]⟩
  | .projectGet | .envList | .keyGet | .keyList | .definitionsExport | .definitionsCheck
  | .definitionsSettingsGet | .projectMachineRevealGet | .advisoryWatch | .keyGroupGet
  | .keyGroupList | .folderGet | .folderList | .projectRetentionRead =>
    ⟨.tenant, .project, [⟨.read, .project⟩]⟩
  | .projectRename | .projectDelete =>
    ⟨.tenant, .project, [⟨.manageProjects, .org⟩]⟩
  | .envCreate | .envReorder | .keyCreate | .keyRename | .keyUpdateDeclaration | .keyUpdateMetadata
  | .keySetGroup | .keyDelete | .keyReclassify | .definitionsPlanCreate | .definitionsPlanGet
  | .definitionsApply | .keyGroupCreate | .keyGroupRename | .keyGroupDelete | .folderCreate
  | .folderRename | .folderDelete =>
    ⟨.tenant, .project, [⟨.definitionsEdit, .project⟩]⟩
  | .envRead | .valueRead | .valueList | .revealWindowRead | .approvalRequestRead | .valueExport
  | .revisionList | .revisionShow | .valuePendingList | .revisionSignals | .pinList | .advisoryEvent
  | .envSettingsRead | .deliveryFetch | .deliveryReconcileOffline | .leaseMint | .leaseInspect
  | .leaseRenew | .leaseRevoke | .leaseSettle =>
    ⟨.tenant, .env, [⟨.read, .env⟩]⟩
  | .envParameterSet | .envRename | .envDelete =>
    ⟨.tenant, .env, [⟨.definitionsEdit, .project⟩]⟩
  | .envUpdateNote | .valueStage | .revisionRestore =>
    ⟨.tenant, .env, [⟨.edit, .env⟩]⟩
  | .keySecretRuleChange | .keyDeclassify =>
    ⟨.tenant, .project, [⟨.reveal, .project⟩]⟩
  | .definitionsSettingsSet | .approvalPolicyWrite | .approvalPolicyRead
  | .projectRetentionUpdate =>
    ⟨.tenant, .project, [⟨.projectSettings, .project⟩]⟩
  | .projectMachineRevealSet =>
    ⟨.tenant, .project, [⟨.projectSettings, .project⟩, ⟨.reveal, .project⟩]⟩
  | .valueReveal | .valueExportReveal | .revisionRestoreCurrent =>
    ⟨.tenant, .env, [⟨.read, .env⟩, ⟨.reveal, .env⟩]⟩
  | .valueSet | .valueClear =>
    ⟨.tenant, .env, [⟨.edit, .env⟩, ⟨.publish, .env⟩]⟩
  | .valueCopySource =>
    ⟨.tenant, .env, [⟨.reveal, .env⟩]⟩
  | .valueCopyDestination =>
    ⟨.tenant, .env, [⟨.reveal, .env⟩, ⟨.publish, .env⟩]⟩
  | .valueCopyDestinationConfig | .valuePublish | .approvalVote | .approvalBypass =>
    ⟨.tenant, .env, [⟨.publish, .env⟩]⟩
  | .importPresence =>
    ⟨.tenant, .env, [⟨.read, .project⟩]⟩
  | .valueImport =>
    ⟨.tenant, .env, [⟨.read, .project⟩, ⟨.edit, .env⟩, ⟨.publish, .env⟩]⟩
  | .valueExportRevealHistory | .revisionRestoreHistory =>
    ⟨.tenant, .env, [⟨.read, .env⟩, ⟨.revealHistory, .env⟩]⟩
  | .rotateTokenKey | .rotateScanningKey | .rotateDEK =>
    ⟨.instanceWide, .none, [⟨.rotateDEK, .none⟩]⟩
  | .reencryptProject =>
    ⟨.tenant, .project, [⟨.reencrypt, .none⟩]⟩
  | .reencryptInstance =>
    ⟨.instanceWide, .none, [⟨.reencrypt, .none⟩]⟩
  | .rotateMasterKey =>
    ⟨.instanceWide, .none, [⟨.rotateMasterKey, .none⟩]⟩
  | .rotateRootKey =>
    ⟨.instanceWide, .none, [⟨.rotateRootKey, .none⟩]⟩
  | .pinSet =>
    ⟨.tenant, .env, [⟨.pin, .env⟩, ⟨.publish, .env⟩]⟩
  | .pinSetHistory =>
    ⟨.tenant, .env, [⟨.revealHistory, .env⟩]⟩
  | .pinRelease =>
    ⟨.tenant, .env, [⟨.pin, .env⟩]⟩
  | .auditQueryOrg | .auditExportOrg =>
    ⟨.tenant, .org, [⟨.auditRead, .org⟩]⟩
  | .auditQueryProject | .auditExportProject =>
    ⟨.tenant, .project, [⟨.auditRead, .project⟩]⟩
  | .auditQueryEnv | .auditExportEnv =>
    ⟨.tenant, .env, [⟨.auditRead, .env⟩]⟩
  | .auditInstanceQuery | .auditInstanceExport =>
    ⟨.instanceWide, .none, [⟨.auditRead, .none⟩]⟩
  | .grantCreateProject | .grantRevokeProject | .grantListProject | .templateApplyProject =>
    ⟨.tenant, .project, [⟨.manageMembers, .project⟩]⟩
  | .grantCreateEnv | .grantRevokeEnv | .templateApplyEnv =>
    ⟨.tenant, .env, [⟨.manageMembers, .project⟩]⟩
  | .grantCreateInstance | .grantRevokeInstance | .grantListInstance | .templateApplyInstance
  | .memberInviteInstance =>
    ⟨.instanceWide, .none, [⟨.manageMembers, .none⟩]⟩
  | .envSettingsUpdate =>
    ⟨.tenant, .env, [⟨.projectSettings, .project⟩]⟩
  | .orgRetentionUpdate =>
    ⟨.tenant, .org, [⟨.projectSettings, .org⟩]⟩
  | .serviceAccountCreate | .serviceAccountList | .serviceAccountDelete | .credentialMint
  | .credentialList | .credentialRevoke | .bindingCreate | .dynamicProviderConfigure
  | .dynamicProviderInspect | .dynamicProviderCredentialSet | .dynamicProviderCredentialRevoke
  | .dynamicProviderDelete =>
    ⟨.tenant, .project, [⟨.manageIdentities, .project⟩]⟩
  | .scimUserCreate | .scimUserGet | .scimUserList | .scimUserReplace | .scimUserPatch
  | .scimUserDelete | .scimGroupCreate | .scimGroupGet | .scimGroupList | .scimGroupReplace
  | .scimGroupPatch | .scimGroupDelete | .scimUnsupported | .scimDiscovery =>
    ⟨.tenant, .org, [⟨.scimProvision, .org⟩]⟩
  | .remoteDirectoryServe | .remoteList | .remoteShow =>
    ⟨.instanceWide, .none, [⟨.instanceDirector, .none⟩]⟩
  | .adapterConfigure | .adapterCredentialSet | .adapterCredentialRevoke | .adapterAdopt
  | .adapterInspect | .adapterPlan | .adapterTest | .adapterSync | .adapterDelete =>
    ⟨.tenant, .project, [⟨.manageAdapters, .project⟩]⟩
  | .adapterPush =>
    ⟨.tenant, .env, [⟨.manageAdapters, .project⟩, ⟨.reveal, .env⟩]⟩

def validateSpec (row : Spec) : Bool :=
  (match row.class_ with
    | .tenant => row.level != .none
    | .instanceWide => row.level == .none) &&
  !row.formula.isEmpty &&
  row.formula.all fun atom =>
    atom.at_.depth ≤ (deepestLevel atom.cap).depth && atom.at_.depth ≤ row.level.depth

theorem spec_valid (op : Operation) : validateSpec (spec op) = true := by
  cases op <;> rfl

theorem formula_ne_nil (op : Operation) : (spec op).formula ≠ [] := by
  have valid := spec_valid op
  simp only [validateSpec, Bool.and_eq_true] at valid
  intro empty
  simp [empty] at valid

/-- The closed list of operations admitted on the organisation that holds the
instance's own configuration. -/
def selfConfigOperations : Operation → Bool
  | .orgGet | .orgRename | .projectGet | .projectList | .projectRename | .envRead | .envList
  | .envRename | .envReorder | .envUpdateNote | .keyGet | .keyList | .keyGroupGet | .keyGroupList
  | .folderGet | .folderList | .valueRead | .valueList | .valueReveal | .revealWindowRead
  | .valueStage | .valuePendingList | .valuePublish | .valueExport | .valueExportReveal
  | .valueExportRevealHistory | .revisionList | .revisionShow | .revisionSignals | .revisionRestore
  | .revisionRestoreHistory | .revisionRestoreCurrent | .pinSet | .pinSetHistory | .pinList
  | .pinRelease | .approvalPolicyRead | .approvalRequestRead | .approvalVote | .approvalBypass
  | .definitionsExport | .definitionsCheck | .definitionsSettingsGet | .projectMachineRevealGet
  | .envSettingsRead | .orgRetentionRead | .orgRetentionUpdate | .projectRetentionRead
  | .projectRetentionUpdate | .auditQueryOrg | .auditQueryProject | .auditQueryEnv | .auditExportOrg
  | .auditExportProject | .auditExportEnv | .grantCreateOrg | .grantCreateProject | .grantCreateEnv
  | .grantRevokeOrg | .grantRevokeProject | .grantRevokeEnv | .grantListOrg | .grantListProject
  | .templateApplyOrg | .templateApplyProject | .templateApplyEnv | .memberInviteOrg
  | .selfConfigApply | .selfConfigTest | .reencryptProject => true
  | _ => false

/-- What a caller must hold at instance scope to reach that organisation at all. -/
def selfConfigFormula : Operation → Formula
  | .grantCreateOrg | .grantCreateProject | .grantCreateEnv | .grantRevokeOrg | .grantRevokeProject
  | .grantRevokeEnv | .grantListOrg | .grantListProject | .templateApplyOrg | .templateApplyProject
  | .templateApplyEnv | .memberInviteOrg =>
    [⟨.instanceConfig, .none⟩, ⟨.manageMembers, .none⟩]
  | _ => [⟨.instanceConfig, .none⟩]

theorem selfConfigFormula_at_none (op : Operation) :
    ∀ atom ∈ selfConfigFormula op, atom.at_ = .none := by
  unfold selfConfigFormula
  split <;> simp

def formulaDemandsMFA (op : Operation) : Bool :=
  (spec op).formula.any fun atom => mfaMandatory atom.cap

end Hikyo.Access
